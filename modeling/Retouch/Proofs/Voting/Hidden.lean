import Mathlib.Data.List.Basic
import Retouch.Voting.Repaint

/-!
# Retouch — Voting — Hidden pixels

Two canvases *agree* when they have the same shape and the same holes, and the same samples
wherever there is no hole.  What their holes hide may differ.  They agree *inside* when the same can
be said of their pixels, whatever flags there are behind the last one (`Canvas.AgreeInside`).

Votes are for open cells only (`cell_of_mem_ballot`), so a tally reads open pixels only, and
a repaint from one canvas is the repaint from the other (`repaint?_congr`).  Nor do the known pixels
that are put back tell the two apart (`restore?_congr`).

Of a field, a repaint takes the matches with their distances, the sides and the radius
(`MatchField.SameMatches`).  The canvases that these matches have been found in are not asked for
again, so the source may be another one (`repaint?_blind`).
-/

namespace Retouch

/-- The two canvases differ at most in what their holes hide. -/
structure Canvas.Agree (c c' : Canvas) : Prop where
  shape : c.image.SameShape c'.image
  holes_eq : c.holes = c'.holes
  sample_eq : ∀ p < c.area, c.isHole p = false → ∀ k < c.depth,
    c.image.sample p k = c'.image.sample p k

/-- Where the canvas reaches, there is one of its cells. -/
theorem Canvas.cell_lt_area_of_contains {c : Canvas} {x y : Int} (h : c.contains x y = true) :
    c.cell x.toNat y.toNat < c.area := by
  simp only [contains, Bool.and_eq_true, decide_eq_true_eq] at h
  obtain ⟨⟨⟨hx₀, hx⟩, hy₀⟩, hy⟩ := h
  exact Raster.cell_lt_area ((Int.toNat_lt hx₀).mpr hx) ((Int.toNat_lt hy₀).mpr hy)

/-- Inside, the two canvases differ at most in what their holes hide.  Behind the last pixel they
may have other flags. -/
structure Canvas.AgreeInside (c c' : Canvas) : Prop where
  shape : c.image.SameShape c'.image
  isHole_eq : ∀ p < c.area, c.isHole p = c'.isHole p
  sample_eq : ∀ p < c.area, c.isHole p = false → ∀ k < c.depth,
    c.image.sample p k = c'.image.sample p k

theorem Canvas.Agree.inside {c c' : Canvas} (h : c.Agree c') : c.AgreeInside c' where
  shape := h.shape
  isHole_eq p _ := by rw [isHole, isHole, h.holes_eq]
  sample_eq := h.sample_eq

namespace Canvas.AgreeInside

variable {c c' : Canvas}

theorem refl (c : Canvas) : c.AgreeInside c :=
  ⟨.refl _, fun _ _ => rfl, fun _ _ _ _ _ => rfl⟩

theorem cell_eq (h : c.AgreeInside c') : c.cell = c'.cell := by
  funext x y
  have hw : c.width = c'.width := h.shape.width_eq
  rw [cell, cell, hw]

/-- What is behind the last pixel is not open in either of them. -/
theorem isOpen_eq (h : c.AgreeInside c') : c.isOpen = c'.isOpen := by
  funext x y
  have hw : c.width = c'.width := h.shape.width_eq
  have hh : c.height = c'.height := h.shape.height_eq
  have hcontains : c'.contains x y = c.contains x y := by rw [contains, contains, hw, hh]
  rw [isOpen, isOpen, hcontains, ← h.cell_eq]
  cases hinside : c.contains x y with
  | false => rfl
  | true => rw [h.isHole_eq _ (cell_lt_area_of_contains hinside)]

/-- An open pixel has the same samples in both. -/
theorem pixel_eq (h : c.AgreeInside c') {p : Nat} (hp : p < c.area) (hopen : c.isHole p = false) :
    c.image.pixel p = c'.image.pixel p := by
  rw [Raster.pixel, Raster.pixel, ← h.shape.depth_eq]
  refine List.map_congr_left fun k hk => ?_
  exact h.sample_eq p hp hopen k (List.mem_range.mp hk)

/-- Putting known pixels back reads the open ones only. -/
theorem restore_congr (h : c.AgreeInside c') {canvas : Canvas} (harea : canvas.area = c.area)
    (hdepth : canvas.depth = c.depth ∨ ∀ p < c.area, c.isHole p = true) :
    canvas.restore c = canvas.restore c' := by
  refine congrArg canvas.withImage (Raster.generate_congr fun p hp k hk => ?_)
  have hp' : p < c.area := Nat.lt_of_lt_of_eq hp harea
  rw [← h.isHole_eq p hp']
  split
  · rfl
  · rename_i hopen
    have hdepth' : canvas.depth = c.depth := hdepth.resolve_right fun hall => hopen (hall p hp')
    have hk' : k < c.depth := Nat.lt_of_lt_of_eq hk hdepth'
    exact h.sample_eq p hp' (Bool.not_eq_true _ ▸ hopen) k hk'

theorem restore?_congr (h : c.AgreeInside c') (canvas : Canvas) :
    canvas.restore? c = canvas.restore? c' := by
  have hw : c.width = c'.width := h.shape.width_eq
  have hh : c.height = c'.height := h.shape.height_eq
  have hd : c.depth = c'.depth := h.shape.depth_eq
  have ha : c.area = c'.area := h.shape.area_eq
  have hall : (List.range c.area).all c.isHole = (List.range c'.area).all c'.isHole := by
    rw [← ha, Bool.eq_iff_iff, List.all_eq_true, List.all_eq_true]
    exact forall₂_congr fun p hp => by rw [h.isHole_eq p (List.mem_range.mp hp)]
  rw [restore?, restore?, ← hw, ← hh, ← hd, ← hall]
  by_cases hsides : canvas.width = c.width ∧ canvas.height = c.height
  · rw [Fault.unless_of hsides]
    by_cases hdepth : canvas.depth = c.depth ∨ (List.range c.area).all c.isHole = true
    · have harea : canvas.area = c.area := congrArg₂ (· * ·) hsides.1 hsides.2
      rw [Fault.unless_of hdepth, h.restore_congr harea (by simpa using hdepth)]
    · rw [Fault.unless_of_not hdepth]
      rfl
  · rw [Fault.unless_of_not hsides]
    rfl

end Canvas.AgreeInside

/-! ### Votes -/

/-- A cell that is open is a cell of the canvas, and no hole. -/
theorem Canvas.cell_of_isOpen {c : Canvas} {x y : Int} (h : c.isOpen x y = true) :
    c.cell x.toNat y.toNat < c.area ∧ c.isHole (c.cell x.toNat y.toNat) = false := by
  simp only [isOpen, Bool.and_eq_true, Bool.not_eq_true'] at h
  exact ⟨cell_lt_area_of_contains h.1, h.2⟩

namespace MatchField

variable {σ : Type} {f : MatchField σ} {zoom : Zoom} {source source' target : Canvas} {x y : Nat}

/-- A vote is for an open cell. -/
theorem cell_of_vote? {qx qy : Nat} {v : Vote} (h : f.vote? zoom source x y qx qy = some v) :
    v.cell < source.area ∧ source.isHole v.cell = false := by
  unfold vote? at h
  dsimp only at h
  split at h
  · rename_i hopen
    cases h
    exact Canvas.cell_of_isOpen hopen
  · cases h

theorem cell_of_mem_ballot {v : Vote} (h : v ∈ f.ballot zoom source target x y) :
    v.cell < source.area ∧ source.isHole v.cell = false := by
  obtain ⟨qy, _, h⟩ := List.mem_flatMap.mp h
  obtain ⟨qx, _, h⟩ := List.mem_filterMap.mp h
  exact cell_of_vote? h

theorem ballot_congr (h : source.AgreeInside source') (target : Canvas) (x y : Nat) :
    f.ballot zoom source target x y = f.ballot zoom source' target x y := by
  simp only [ballot, vote?, h.isOpen_eq, h.cell_eq]

end MatchField

/-- Electing among open cells reads open pixels only. -/
theorem Vote.elect_congr {source source' : Canvas} (h : source.AgreeInside source')
    (layout : Layout) (old : List UInt8) {votes : List Vote}
    (hvotes : ∀ v ∈ votes, v.cell < source.area ∧ source.isHole v.cell = false) :
    elect source layout old votes = elect source' layout old votes := by
  have htally : tally source layout.size votes = tally source' layout.size votes := by
    refine List.foldl_ext _ _ _ fun t v hv => ?_
    obtain ⟨hcell, hopen⟩ := hvotes v hv
    rw [h.pixel_eq hcell hopen]
  rw [elect, elect, htally]

namespace MatchField

variable {σ : Type} (f : MatchField σ) (zoom : Zoom) {source source' : Canvas} (target : Canvas)

theorem repaintedPixel_congr (h : source.AgreeInside source') (p : Nat) :
    f.repaintedPixel zoom source target p = f.repaintedPixel zoom source' target p := by
  rw [repaintedPixel, repaintedPixel, ← ballot_congr h]
  exact Vote.elect_congr h _ _ fun v hv => cell_of_mem_ballot hv

theorem repaint_congr (h : source.AgreeInside source') :
    f.repaint zoom source target = f.repaint zoom source' target := by
  simp only [repaint, repaintedPixel_congr f zoom target h]

/-- **Repaints do not read holes.** -/
theorem repaint?_congr (h : source.AgreeInside source') :
    f.repaint? zoom source target = f.repaint? zoom source' target := by
  have hd : source.depth = source'.depth := h.shape.depth_eq
  simp only [repaint?, repaint_congr f zoom target h, ballot_congr h, hd]

end MatchField

/-! ### Fields with the same matches -/

/-- The two fields have the same sides, the same radius and the same matches.  The canvases they
compare, and their draws, may differ. -/
structure MatchField.SameMatches {σ τ : Type} (f : MatchField σ) (g : MatchField τ) : Prop where
  width_eq : f.width = g.width
  height_eq : f.height = g.height
  radius_eq : f.radius = g.radius
  entries_eq : f.entries = g.entries

namespace MatchField.SameMatches

variable {σ τ : Type} {f : MatchField σ} {g : MatchField τ} (h : f.SameMatches g) (zoom : Zoom)
  (source target : Canvas)

include h

theorem entry_eq (p : Nat) : f.entry p = g.entry p := by
  rw [entry, entry, h.entries_eq]

theorem aim_eq (x y : Nat) : f.aim zoom x y = g.aim zoom x y := by
  cases zoom <;> simp only [aim, h.entry_eq, h.width_eq, h.height_eq]

theorem ballot_eq (x y : Nat) :
    f.ballot zoom source target x y = g.ballot zoom source target x y := by
  simp only [ballot, centres, vote?, h.radius_eq, h.aim_eq]

theorem repaint_eq : f.repaint zoom source target = g.repaint zoom source target := by
  simp only [repaint, repaintedPixel, h.ballot_eq]

theorem covers_iff : f.Covers zoom target ↔ g.Covers zoom target := by
  cases zoom <;> simp only [Covers, h.width_eq, h.height_eq, h.entries_eq]

theorem repaint?_eq : f.repaint? zoom source target = g.repaint? zoom source target := by
  simp only [repaint?, h.radius_eq, h.covers_iff zoom target, h.ballot_eq, h.repaint_eq]

end MatchField.SameMatches

namespace MatchField

variable {σ τ : Type}

/-- **A repaint is blind** to what the holes of its source hide, and to the canvases of its field:
from sources that agree, by fields with the same matches, it makes the same of a target, or ends
with the same fault. -/
theorem repaint?_blind {f : MatchField σ} {g : MatchField τ} (hmatches : f.SameMatches g)
    {source source' : Canvas} (h : source.Agree source') (zoom : Zoom) (target : Canvas) :
    f.repaint? zoom source target = g.repaint? zoom source' target :=
  (repaint?_congr f zoom target h.inside).trans (hmatches.repaint?_eq zoom source' target)

/-- Three pixels, of which the middle one is a hole and hides the sample `hidden`. -/
def veiledCanvas (hidden : UInt8) : Canvas :=
  .ofParts (.generate 3 1 .gray fun p _ => if p = 1 then hidden else 90)
    (.ofHoles 3 1 fun x _ => x == 1)

/-- Every pixel is matched with itself, whatever canvases these are. -/
def levelField (target source : Canvas) : MatchField Unit :=
  ⟨⟨target, source, 1⟩, #[⟨0, 0, 0⟩, ⟨1, 0, 0⟩, ⟨2, 0, 0⟩], ()⟩

/-- Sources that hide different samples, one of them matched in quite another canvas. -/
theorem repaint?_blind_veiled :
    let black : Canvas := .ofParts (.blank 3 1 .gray) (.blank 3 1 .gray)
    veiledCanvas 20 ≠ veiledCanvas 250 ∧
    (levelField (veiledCanvas 20) (veiledCanvas 20)).repaint? .same (veiledCanvas 20) black =
      (levelField black black).repaint? .same (veiledCanvas 250) black := by
  intro black
  have hagree : (veiledCanvas 20).Agree (veiledCanvas 250) :=
    ⟨⟨rfl, rfl, rfl⟩, rfl, by decide +kernel⟩
  exact ⟨by decide +kernel, repaint?_blind ⟨rfl, rfl, rfl, rfl⟩ hagree .same black⟩

end MatchField

end Retouch
