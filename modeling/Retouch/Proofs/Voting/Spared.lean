import Retouch.Proofs.Canvas.Cached
import Retouch.Proofs.Voting.Casting
import Retouch.Proofs.Voting.Clerks

/-!
# Retouch — Voting — What a repaint spares

A repaint of a canvas that is kept with a copy of its samples reads the copies: votes are for copied
pixels of the source, and the buffer that clerks write their outcomes into starts as the copy of the
target.  When all rows have been counted, the buffer takes the place of the samples on both sides
(`MatchField.repaintCopies?`).

On canvases that mirror their samples this is the repaint of the plain canvas, copied
(`MatchField.repaintCopies?_eq_ok_iff`): clerks end only where a repaint ends, since each of them
stops at the first vote for a pixel with too many channels (`MatchField.repaint?_of_count?`).

So it is known what such a repaint leaves alone (`MatchField.Spares`): the sides, the channels and
the holes; samples without colour; and pixels that no patch can vote for, because what it is matched
with is outside the source or a hole there (`MatchField.Unreached`).
-/

namespace Retouch

/-- The canvas as its copy shows it. -/
def CachedCanvas.shown? (c : CachedCanvas) : Except Fault Canvas :=
  return c.withImage (← c.image.replaceSamples? c.pixels)

namespace MatchField

variable {σ : Type}

/-- Whether all patches can be looked up, where there are rows to count. -/
def checkPatches (f : MatchField σ) (zoom : Zoom) (target : Canvas) : Except Fault Unit := do
  if target.rowCount = 0 then
    return
  Fault.overflow.unless (f.radius ≠ Word.half64)
  if f.radius < Word.half64 then
    Fault.outOfRange.unless (f.Covers zoom target)

/-- The repaint of a canvas with a copy: clerks take their turns on a buffer, which then becomes
both the samples of the image and their copy. -/
def repaintCopies? (f : MatchField σ) (zoom : Zoom) (source target : CachedCanvas)
    (turns : List Turn) : Except Fault CachedCanvas := do
  let source ← source.shown?
  let shown ← target.shown?
  f.checkPatches zoom shown
  let office ← f.count? zoom source shown turns ⟨shown.image, fun _ => .empty shown.depth⟩
  target.replacePixels? office.image.samples

end MatchField

/-! ### Clerks that end -/

/-- Who has counted votes for pixels of the source has a channel for every sample. -/
theorem Vote.channels_of_count? {source : Canvas} {votes : List Vote} {t t' : Tally}
    {sum sum' : Float32} (h : count? source t sum votes = .ok (t', sum')) :
    t'.channels = t.channels ∧ ∀ v ∈ votes, source.depth ≤ t.channels := by
  induction votes generalizing t sum with
  | nil =>
    cases h
    exact ⟨rfl, fun _ hv => absurd hv List.not_mem_nil⟩
  | cons v votes ih =>
    obtain ⟨next, hnext, hrest⟩ := bind_eq_ok_iff.mp h
    obtain ⟨hpixel, hadd⟩ := Fault.unless_bind_eq_ok_iff.mp hnext
    cases hadd
    obtain ⟨hchannels, hvotes⟩ := ih hrest
    rw [Raster.length_pixel] at hpixel
    exact ⟨hchannels, List.forall_mem_cons.mpr ⟨hpixel, hvotes⟩⟩

namespace MatchField

variable {σ : Type} {f : MatchField σ} {zoom : Zoom} {source target : Canvas}

theorem channels_of_turn? {office next : Office} {turn : Turn} {channels : Nat}
    (h : f.turn? zoom source target office turn = .ok next)
    (hoffice : ∀ clerk, (office.tallies clerk).channels = channels) :
    (∀ clerk, (next.tallies clerk).channels = channels) ∧
      ∀ v ∈ f.ballot zoom source target turn.x turn.y, source.depth ≤ channels := by
  obtain ⟨⟨tally, total⟩, hcount, h⟩ := bind_eq_ok_iff.mp h
  obtain ⟨hchannels, hvotes⟩ := Vote.channels_of_count? hcount
  have hclear : (office.tallies turn.clerk).clear.channels = channels := hoffice turn.clerk
  have hnext := Office.channels_withTally (hchannels.trans hclear) hoffice turn.clerk
  refine ⟨?_, fun v hv => hclear ▸ hvotes v hv⟩
  dsimp only at h
  split at h
  · cases h
    exact hnext
  · obtain ⟨posted, -, h⟩ := bind_eq_ok_iff.mp h
    cases h
    exact hnext

theorem depth_le_of_count? {office last : Office} {turns : List Turn} {channels : Nat}
    (h : f.count? zoom source target turns office = .ok last)
    (hoffice : ∀ clerk, (office.tallies clerk).channels = channels) :
    ∀ turn ∈ turns, ∀ v ∈ f.ballot zoom source target turn.x turn.y, source.depth ≤ channels := by
  induction turns generalizing office with
  | nil => exact fun _ hturn => absurd hturn List.not_mem_nil
  | cons turn turns ih =>
    obtain ⟨next, hnext, hrest⟩ := bind_eq_ok_iff.mp h
    obtain ⟨hchannels, hvotes⟩ := channels_of_turn? hnext hoffice
    exact List.forall_mem_cons.mpr ⟨hvotes, ih hrest hchannels⟩

theorem checkPatches_eq_ok_iff :
    f.checkPatches zoom target = .ok () ↔
      (0 < target.area → 0 < target.depth → f.radius ≠ Word.half64 ∧
        (f.radius < Word.half64 → f.Covers zoom target)) := by
  unfold checkPatches
  by_cases hsamples : 0 < target.area ∧ 0 < target.depth
  · obtain ⟨harea, hdepth⟩ := hsamples
    have hheight : 0 < target.height := Nat.pos_of_mul_pos_left harea
    have hrows : ¬ target.rowCount = 0 := Canvas.rowCount_eq harea hdepth ▸ hheight.ne'
    simp only [hrows, if_false, harea, hdepth, true_implies]
    refine Fault.unless_bind_eq_ok_iff.trans (and_congr_right fun _ => ?_)
    by_cases hradius : f.radius < Word.half64
    · simp only [hradius, if_true, true_implies, Fault.unless_eq_ok_iff]
    · simp only [hradius, if_false, false_implies]
      exact iff_of_true rfl trivial
  · rw [if_pos (Canvas.rowCount_eq_zero hsamples)]
    exact iff_of_true rfl fun harea hdepth => (hsamples ⟨harea, hdepth⟩).elim

/-- Clerks end only where a repaint does. -/
theorem repaint?_of_count? {rota : Rota target.rowCount target.width} {tallies : Nat → Tally}
    (htallies : ∀ clerk, (tallies clerk).channels = target.depth) {last : Office}
    (hpatches : f.checkPatches zoom target = .ok ())
    (h : f.count? zoom source target rota.turns ⟨target.image, tallies⟩ = .ok last) :
    f.repaint? zoom source target = .ok (f.repaint zoom source target) := by
  refine repaint?_eq_ok_iff.mpr ⟨rfl, fun harea hdepth => ?_⟩
  obtain ⟨hradius, hcovers⟩ := checkPatches_eq_ok_iff.mp hpatches harea hdepth
  refine ⟨hradius, fun hlt => ⟨hcovers hlt, or_iff_not_imp_left.mpr fun hmore p hp => ?_⟩⟩
  refine List.eq_nil_iff_forall_not_mem.mpr fun v hv => hmore ?_
  -- The pixel has its turn, in which the vote has been counted.
  have hrows := Canvas.rowCount_eq harea hdepth
  have hcell : p ∈ List.range (target.rowCount * target.width) := by
    rw [hrows, Nat.mul_comm]
    exact List.mem_range.mpr hp
  obtain ⟨turn, hturn, rfl⟩ := List.mem_map.mp (rota.cells_perm.mem_iff.mpr hcell)
  obtain ⟨hx, hy⟩ := rota.within hturn
  rw [ballotAt_cell ⟨hx, Nat.lt_of_lt_of_eq hy hrows⟩] at hv
  exact depth_le_of_count? h htallies turn hturn v hv

end MatchField

/-! ### Copies -/

theorem Raster.replaceSamples?_samples {r s : Raster} (h : r.SameShape s) :
    s.replaceSamples? r.samples = .ok r := by
  obtain ⟨width, height, layout, samples, hsize⟩ := r
  obtain ⟨rfl, rfl, rfl⟩ := h
  exact dif_pos (hsize.trans s.size_eq.symm)

theorem CachedCanvas.Mirrors.shown?_eq_ok {c : CachedCanvas} (h : c.Mirrors) :
    c.shown? = .ok c.toCanvas := by
  rw [shown?, h.pixels_eq, Raster.replaceSamples?_samples (.refl _)]
  rfl

/-- A buffer of the same shape takes the place of the samples on both sides. -/
theorem CachedCanvas.Mirrors.replacePixels?_eq_ok {c : CachedCanvas} (h : c.Mirrors)
    {image : Raster} (hshape : image.SameShape c.image) :
    c.replacePixels? image.samples = .ok (c.withImage image).cached := by
  rw [h.eq_cached, replacePixels?_cached, Raster.replaceSamples?_samples hshape]
  rfl

namespace MatchField

variable {σ : Type} {f : MatchField σ} {zoom : Zoom} {source target result : CachedCanvas}

theorem sameShape_of_withImage_eq {source target : Canvas} {image : Raster}
    (h : target.withImage image = f.repaint zoom source target) : image.SameShape target.image := by
  have himage : image = (f.repaint zoom source target).image := congrArg Canvas.image h
  exact himage ▸ ⟨rfl, rfl, rfl⟩

/-- A repaint of mirrored canvases is that of the plain canvases, copied. -/
theorem repaintCopies?_eq_ok_iff (hsource : source.Mirrors) (htarget : target.Mirrors)
    (rota : Rota target.rowCount target.width) :
    f.repaintCopies? zoom source target rota.turns = .ok result ↔
      ∃ plain, f.repaint? zoom source.toCanvas target.toCanvas = .ok plain ∧
        result = plain.cached := by
  have hempty : ∀ clerk : Nat, (Tally.empty target.depth).channels = target.depth := fun _ => rfl
  have hrun : f.repaintCopies? zoom source target rota.turns = (do
      f.checkPatches zoom target.toCanvas
      let office ← f.count? zoom source.toCanvas target.toCanvas rota.turns
        ⟨target.image, fun _ => .empty target.depth⟩
      target.replacePixels? office.image.samples) := by
    rw [repaintCopies?, hsource.shown?_eq_ok, htarget.shown?_eq_ok]
    rfl
  rw [hrun]
  constructor
  · intro h
    obtain ⟨⟨⟩, hpatches, h⟩ := bind_eq_ok_iff.mp h
    obtain ⟨office, hoffice, h⟩ := bind_eq_ok_iff.mp h
    have hrepaint := repaint?_of_count? hempty hpatches hoffice
    obtain ⟨last, hlast, himage⟩ := exists_count? hrepaint rota hempty
    obtain rfl : office = last := Except.ok.inj (hoffice.symm.trans hlast)
    rw [htarget.replacePixels?_eq_ok (sameShape_of_withImage_eq himage)] at h
    exact ⟨_, hrepaint, himage ▸ (Except.ok.inj h).symm⟩
  · rintro ⟨plain, hrepaint, rfl⟩
    obtain ⟨hplain, hchecks⟩ := repaint?_eq_ok_iff.mp hrepaint
    obtain ⟨last, hlast, rfl⟩ := exists_count? hrepaint rota hempty
    have hpatches := checkPatches_eq_ok_iff.mpr fun harea hdepth =>
      (hchecks harea hdepth).imp_right fun h hradius => (h hradius).1
    refine bind_eq_ok_iff.mpr ⟨(), hpatches, bind_eq_ok_iff.mpr ⟨last, hlast, ?_⟩⟩
    exact htarget.replacePixels?_eq_ok (sameShape_of_withImage_eq hplain.symm)

/-! ### What is spared -/

/-- No patch can vote for pixel `(x, y)`: for each that is centred inside the target and covers the
pixel, the position it is matched with, less the offset of the patch from the pixel, is outside the
source or on a hole of it. -/
def Unreached (f : MatchField σ) (zoom : Zoom) (source target : Canvas) (x y : Nat) : Prop :=
  ∀ qx < target.width, ∀ qy < target.height,
    (qx - x : Int).natAbs ≤ f.radius → (qy - y : Int).natAbs ≤ f.radius →
      let m := f.aim zoom qx qy
      source.isOpen (m.x - (qx - x)) (m.y - (qy - y)) = false

/-- What a repaint leaves alone. -/
structure Spares (f : MatchField σ) (zoom : Zoom) (source target result : CachedCanvas) :
    Prop where
  shape : result.image.SameShape target.image
  mask_eq : result.mask = target.mask
  holes_eq : result.holes = target.holes
  /-- Samples without colour stay. -/
  colourless : ∀ p < target.area, ∀ c < target.depth,
    (target.layout.getD c .alpha).isColor = false →
      result.image.sample p c = target.image.sample p c
  /-- Pixels that no patch can vote for stay. -/
  unreached : ∀ x < target.width, ∀ y < target.height,
    f.Unreached zoom source.toCanvas target.toCanvas x y →
      result.image.pixel (target.cell x y) = target.image.pixel (target.cell x y)
  /-- The samples and their copy are still the same. -/
  mirrors : result.Mirrors

/-- The patches around the centres of a pixel cover it. -/
theorem natAbs_sub_le_of_mem_centres {v n q : Nat} (h : q ∈ f.centres v n) :
    q < n ∧ (q - v : Int).natAbs ≤ f.radius := by
  unfold centres at h
  split at h
  · rw [List.mem_range'_1] at h
    omega
  · exact absurd h List.not_mem_nil

theorem Unreached.ballot_eq_nil {source target : Canvas} {x y : Nat}
    (h : f.Unreached zoom source target x y) : f.ballot zoom source target x y = [] := by
  refine List.eq_nil_iff_forall_not_mem.mpr fun v hv => ?_
  obtain ⟨qy, hqy, hv⟩ := List.mem_flatMap.mp hv
  obtain ⟨qx, hqx, hv⟩ := List.mem_filterMap.mp hv
  obtain ⟨hx, hqx⟩ := natAbs_sub_le_of_mem_centres hqx
  obtain ⟨hy, hqy⟩ := natAbs_sub_le_of_mem_centres hqy
  have hclosed := h qx hx qy hy hqx hqy
  have hx' : ((f.aim zoom qx qy).x - (qx - x) : Int) = (f.aim zoom qx qy).x + x - qx := by omega
  have hy' : ((f.aim zoom qx qy).y - (qy - y) : Int) = (f.aim zoom qx qy).y + y - qy := by omega
  dsimp only at hclosed
  rw [hx', hy'] at hclosed
  simp [vote?, hclosed] at hv

/-- **A repaint changes only what it has votes for.**  Whoever counts the rows, if a repaint ends,
then sides, channels, mask and holes are as before, and so are samples without colour and pixels
that no patch can vote for; and the samples of the image are those of the copy. -/
theorem repaintCopies?_spares (hsource : source.Mirrors) (htarget : target.Mirrors)
    (rota : Rota target.rowCount target.width)
    (h : f.repaintCopies? zoom source target rota.turns = .ok result) :
    f.Spares zoom source target result := by
  obtain ⟨plain, hplain, rfl⟩ := (repaintCopies?_eq_ok_iff hsource htarget rota).mp h
  obtain ⟨rfl, -⟩ := repaint?_eq_ok_iff.mp hplain
  refine ⟨⟨rfl, rfl, rfl⟩, rfl, rfl, ?_, ?_, ?_⟩
  · intro p hp c hc hcolor
    exact sample_repaint_of_not_isColor hp hc hcolor
  · intro x hx y hy hunreached
    have hnone : f.ballotAt zoom source.toCanvas target.toCanvas (target.cell x y) = [] := by
      rw [ballotAt, Canvas.cell, Raster.index_mod _ hx, Raster.index_div _ hx]
      exact hunreached.ballot_eq_nil
    refine List.map_congr_left fun c hc => ?_
    exact sample_repaint_of_no_votes (Raster.cell_lt_area hx hy) (List.mem_range.mp hc) hnone
  · exact CachedCanvas.mirrors_cached (htarget.consistent.withImage rfl rfl)

/-- Two columns and three rows of a colour and an opacity, with a hole in the corner. -/
def cornerCanvas (shade : UInt8) : CachedCanvas :=
  (Canvas.ofParts (.generate 2 3 #[.color, .alpha] fun p c => shade + (20 * p + c).toUInt8)
    (.ofHoles 2 3 fun x y => x == 0 && y == 0)).cached

/-- Every pixel is matched with the corner. -/
def cornerField : MatchField Unit :=
  ⟨⟨(cornerCanvas 0).toCanvas, (cornerCanvas 90).toCanvas, 1⟩, Array.replicate 6 ⟨0, 0, 0⟩, ()⟩

/-- The corner, for which only the patch around it could vote, stays, and so does all opacity; the
last pixel changes. -/
theorem repaintCopies?_spares_corner : ∃ result,
    cornerField.repaintCopies? .same (cornerCanvas 90) (cornerCanvas 0) crossedRota.turns =
      .ok result ∧
    result.image.pixel 0 = (cornerCanvas 0).image.pixel 0 ∧
    result.image.sample 5 1 = (cornerCanvas 0).image.sample 5 1 ∧
    result.pixels = result.image.samples ∧
    result.image.sample 5 0 ≠ (cornerCanvas 0).image.sample 5 0 := by
  have hmirrors (shade : UInt8) : (cornerCanvas shade).Mirrors :=
    CachedCanvas.mirrors_cached (Canvas.consistent_ofParts rfl rfl rfl)
  have haligned : cornerField.Aligned .same (cornerCanvas 90).toCanvas (cornerCanvas 0).toCanvas :=
    ⟨rfl, ⟨rfl, rfl⟩, Nat.le_refl _⟩
  have hrepaint := haligned.repaint?_eq_ok (by decide)
  have hresult := (repaintCopies?_eq_ok_iff (hmirrors 90) (hmirrors 0) crossedRota).mpr
    ⟨_, hrepaint, rfl⟩
  have hspares := repaintCopies?_spares (hmirrors 90) (hmirrors 0) crossedRota hresult
  have hunreached : cornerField.Unreached .same (cornerCanvas 90).toCanvas
      (cornerCanvas 0).toCanvas 0 0 := by
    unfold Unreached
    decide +kernel
  refine ⟨_, hresult, hspares.unreached 0 (by decide) 0 (by decide) hunreached,
    hspares.colourless 5 (by decide) 1 (by decide) rfl, hspares.mirrors.pixels_eq, ?_⟩
  decide +kernel

end MatchField

end Retouch
