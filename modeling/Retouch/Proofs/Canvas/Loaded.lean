import Mathlib.Data.List.Basic
import Retouch.Canvas.Consistent
import Retouch.Canvas.Loaded
import Retouch.Proofs.Raster.Packed

/-!
# Retouch — Canvas — Copies that agree

The copies of a canvas hold the complete rows of its two buffers (`LoadedCanvas.Copied`).  They do
so when it is paired, since copies are made row by row (`copyRows_rows`), and every edit keeps it
so (`follows_of_edit?`): what is written goes to the same place on both sides, a place behind the
last pixel included, and where new rasters are made, the copies are made anew.

Whether the copies *agree* with the rasters (`LoadedCanvas.Agrees`) is another matter.  A buffer
that goes on behind the last pixel holds more samples than its raster has, and if it ends within a
row, its copy is shorter than it is.  So the two sides agree exactly where nothing is behind the
last pixel (`Copied.agrees_iff`), and as no edit puts anything there, that is for good
(`agrees_of_edits?_iff`).
-/

namespace Retouch

/-! ### Rows -/

namespace Raster

/-- Consecutive pieces of one length make up the beginning of a buffer. -/
theorem flatten_pieces (samples : Array UInt8) (stride n : Nat) :
    ((List.range n).map fun y =>
      (samples.extract (y * stride) ((y + 1) * stride)).toList).flatten =
        samples.toList.take (n * stride) := by
  induction n with
  | zero => simp
  | succ n ih =>
    have hlength : (n + 1) * stride - n * stride = stride := by
      rw [Nat.succ_mul, Nat.add_sub_cancel_left]
    rw [List.range_succ, List.map_append, List.flatten_append, ih, List.map_singleton,
      List.flatten_singleton, Array.toList_extract, List.extract_eq_take_drop, hlength,
      ← List.take_add, Nat.succ_mul]

/-- Writing does not look beyond the place that is written. -/
theorem extract_overwrite (samples : Array UInt8) (n start : Nat) (bytes : List UInt8) :
    (overwrite samples start bytes).extract 0 n =
      overwrite (samples.extract 0 n) start bytes := by
  refine Array.ext_getElem? fun i => ?_
  simp only [Array.getElem?_extract, getElem?_overwrite, size_overwrite, Array.size_extract]
  by_cases hi : i < min n samples.size
  · have hlt : i < samples.size := Nat.lt_of_lt_of_le hi (Nat.min_le_right _ _)
    simp [hi, hlt]
  · simp [hi]

end Raster

namespace Loaded

variable {l : Loaded}

/-- How much of the buffer is in complete rows. -/
def wholeSize (l : Loaded) : Nat :=
  l.samples.size / l.stride * l.stride

/-- The samples of the complete rows. -/
def wholeRows (l : Loaded) : Array UInt8 :=
  l.samples.extract 0 l.wholeSize

theorem wholeSize_le (l : Loaded) : l.wholeSize ≤ l.samples.size :=
  Nat.div_mul_le_self _ _

theorem size_wholeRows (l : Loaded) : l.wholeRows.size = l.wholeSize := by
  rw [wholeRows, Array.size_extract, Nat.min_eq_left l.wholeSize_le, Nat.sub_zero]

/-- The rows hold their samples in order. -/
theorem flatten_rows (l : Loaded) : l.rows.flatten = l.wholeRows.toList := by
  rw [rows, Raster.flatten_pieces, wholeRows, wholeSize, Array.toList_extract,
    List.extract_eq_take_drop, List.drop_zero, Nat.sub_zero]

/-- The rows of the raster are complete. -/
theorem size_raster_le (l : Loaded) : l.raster.samples.size ≤ l.wholeSize := by
  have hsize : l.raster.samples.size = l.height * (l.width * l.depth) := by
    rw [l.raster.size_eq, width, height, depth, Raster.depth, Nat.mul_comm l.raster.width,
      Nat.mul_assoc]
  have hstride : l.width * l.depth ≤ l.stride := Nat.le_max_left _ _
  rcases Nat.eq_zero_or_pos (l.width * l.depth) with hzero | hpos
  · rw [hsize, hzero, Nat.mul_zero]
    exact Nat.zero_le _
  · have hsame : l.stride = l.width * l.depth := Nat.max_eq_left hpos
    have hrows : l.height ≤ l.samples.size / l.stride := by
      rw [hsame, Nat.le_div_iff_mul_le hpos, ← hsize, l.size_samples]
      exact Nat.le_add_right _ _
    rw [hsize, wholeSize]
    exact Nat.mul_le_mul hrows hstride

/-- Up to the last pixel, the complete rows hold what the raster holds. -/
theorem getD_wholeRows {i : Nat} (h : i < l.raster.samples.size) :
    l.wholeRows.getD i 0 = l.raster.samples.getD i 0 := by
  have hwhole : i < l.wholeRows.size :=
    l.size_wholeRows ▸ Nat.lt_of_lt_of_le h l.size_raster_le
  have hsame : l.wholeRows[i]? = l.raster.samples[i]? := by
    rw [wholeRows, Array.getElem?_extract, if_pos (by simpa [wholeRows] using hwhole),
      Nat.zero_add, samples, Array.getElem?_append_left h]
  rw [Array.getD_eq_getD_getElem?, hsame, Array.getD_eq_getD_getElem?]

theorem samples_eq_of_spare_eq (h : l.spare = #[]) : l.samples = l.raster.samples := by
  rw [samples, h, Array.append_empty]

/-- With nothing behind the last pixel, these are all samples. -/
theorem wholeRows_eq (h : l.spare = #[]) : l.wholeRows = l.samples := by
  have hle : l.samples.size ≤ l.wholeSize := by
    rw [samples_eq_of_spare_eq h]
    exact l.size_raster_le
  rw [wholeRows, Nat.le_antisymm l.wholeSize_le hle, Array.extract_size]

theorem wholeSize_withSamples {samples : Array UInt8} (h : samples.size = l.samples.size) :
    (l.withSamples samples h).wholeSize = l.wholeSize := by
  have hstride : (l.withSamples samples h).stride = l.stride := rfl
  rw [wholeSize, samples_withSamples, h, hstride, wholeSize]

theorem wholeRows_withSamples {samples : Array UInt8} (h : samples.size = l.samples.size) :
    (l.withSamples samples h).wholeRows = samples.extract 0 l.wholeSize := by
  rw [wholeRows, wholeSize_withSamples, samples_withSamples]

theorem wholeRows_map (f : UInt8 → UInt8) (l : Loaded) :
    (l.map f).wholeRows = l.wholeRows.map f := by
  have hstride : (l.map f).stride = l.stride := rfl
  rw [wholeRows, wholeSize, samples_map, Array.size_map, hstride, wholeRows, wholeSize,
    Array.map_extract]

/-- The buffer is as long as sides and channels ask for exactly when nothing is behind the last
pixel. -/
theorem spare_eq_iff (l : Loaded) :
    l.spare = #[] ↔ l.samples.size = l.width * l.height * l.depth := by
  have hraster : l.raster.samples.size = l.width * l.height * l.depth := l.raster.size_eq
  rw [← Array.size_eq_zero_iff, l.size_samples, hraster]
  omega

end Loaded

namespace LoadedCanvas

variable {c c' known : LoadedCanvas}

theorem toList_copyRows {α : Type} (f : UInt8 → α) (rows : List (List UInt8)) :
    (copyRows f rows).toList = rows.flatten.map f := by
  have hfold (copy : Array α) :
      (rows.foldl (fun copy row => copy.appendList (row.map f)) copy).toList =
        copy.toList ++ rows.flatten.map f := by
    induction rows generalizing copy with
    | nil => simp
    | cons row rows ih =>
      rw [List.foldl_cons, ih, List.flatten_cons, List.map_append, ← List.append_assoc]
      exact congrArg (· ++ _) Array.toList_appendList
  rw [copyRows, hfold]
  rfl

/-- A copy made row by row holds the complete rows. -/
theorem copyRows_rows {α : Type} (f : UInt8 → α) (l : Loaded) :
    copyRows f l.rows = l.wholeRows.map f := by
  rw [← Array.toList_inj, toList_copyRows, l.flatten_rows, Array.toList_map]

/-! ### Copied canvases -/

/-- Image and mask have one size, the mask has one channel, and the copies hold the complete rows of
both buffers: the samples of the image as they are, and a flag where a sample of the mask is not
zero. -/
structure Copied (c : LoadedCanvas) : Prop where
  width_eq : c.mask.width = c.image.width
  height_eq : c.mask.height = c.image.height
  depth_mask : c.mask.depth = 1
  pixels_eq : c.pixels = c.image.wholeRows
  holes_eq : c.holes = c.mask.wholeRows.map fun v => decide (v ≠ 0)

/-- The raster of the mask has one sample for every pixel of the image. -/
theorem Copied.size_mask (h : c.Copied) : c.mask.raster.samples.size = c.canvas.area := by
  have hw : c.mask.raster.width = c.image.raster.width := h.width_eq
  have hh : c.mask.raster.height = c.image.raster.height := h.height_eq
  have hd : c.mask.raster.depth = 1 := h.depth_mask
  rw [c.mask.raster.size_samples, hd, Nat.mul_one, Raster.area, hw, hh]
  rfl

/-- Neither buffer goes on behind the last pixel. -/
structure Exact (c : LoadedCanvas) : Prop where
  image : c.image.spare = #[]
  mask : c.mask.spare = #[]

/-- What an edit leaves of a canvas: the copies are copies again, and nothing has got behind the
last pixel. -/
structure Follows (c c' : LoadedCanvas) : Prop where
  copied : c'.Copied
  exact : c.Exact → c'.Exact

theorem Copied.follows (h : c.Copied) : c.Follows c :=
  ⟨h, id⟩

theorem Follows.trans {d : LoadedCanvas} (h : c.Follows c') (h' : c'.Follows d) : c.Follows d :=
  ⟨h'.copied, fun hexact => h'.exact (h.exact hexact)⟩

theorem copied_recached {image mask : Loaded} (hw : mask.width = image.width)
    (hh : mask.height = image.height) (hd : mask.depth = 1) : (recached image mask).Copied where
  width_eq := hw
  height_eq := hh
  depth_mask := hd
  pixels_eq := (copyRows_rows id image).trans (Array.map_id _)
  holes_eq := copyRows_rows _ mask

/-- New rasters have nothing behind their last pixels. -/
theorem exact_recached (image mask : Raster) :
    (recached (.ofRaster image) (.ofRaster mask)).Exact :=
  ⟨rfl, rfl⟩

/-- A pair that is accepted is made of what was handed in. -/
theorem eq_recached_of_pair? {image mask : Loaded} (h : pair? image mask = .ok c) :
    c = recached image mask ∧ c.Copied := by
  obtain ⟨_, hmask, h⟩ := bind_eq_ok_iff.mp h
  obtain ⟨_, _, h⟩ := bind_eq_ok_iff.mp h
  obtain ⟨hd, hw, hh⟩ := Canvas.checkMask_eq_ok_iff.mp (Failure.ofRefusal_eq_ok_iff.mp hmask)
  cases h
  exact ⟨rfl, copied_recached hw.symm hh.symm hd⟩

/-! ### Edits -/

/-- The buffer of the image is replaced by another, the copy by the complete rows of it. -/
theorem Copied.write (h : c.Copied) {samples pixels : Array UInt8}
    (hsize : samples.size = c.image.samples.size)
    (hpixels : pixels = samples.extract 0 c.image.wholeSize) :
    c.Follows { c with image := c.image.withSamples samples hsize, pixels } where
  copied := ⟨h.width_eq, h.height_eq, h.depth_mask,
    hpixels.trans (Loaded.wholeRows_withSamples hsize).symm, h.holes_eq⟩
  exact hexact := ⟨Loaded.spare_withSamples hsize hexact.image, hexact.mask⟩

theorem Copied.setPixel? (h : c.Copied) {x y : Nat} {bytes : List UInt8}
    (hc : c.setPixel? x y bytes = .ok c') : c.Follows c' := by
  obtain ⟨p, hp, hc⟩ := bind_eq_ok_iff.mp hc
  obtain ⟨-, hc⟩ := Fault.unless_bind_eq_ok_iff.mp hc
  obtain ⟨image, himage, hc⟩ := bind_eq_ok_iff.mp hc
  obtain ⟨q, hq, himage⟩ := bind_eq_ok_iff.mp himage
  obtain ⟨-, himage⟩ := Fault.unless_bind_eq_ok_iff.mp himage
  obtain ⟨-, hp⟩ := Fault.unless_bind_eq_ok_iff.mp hp
  obtain ⟨-, hq⟩ := Fault.unless_bind_eq_ok_iff.mp hq
  cases himage
  cases hc
  -- Both sides are written at the same place.
  obtain rfl : p = q := (Except.ok.inj hp).symm.trans (Except.ok.inj hq)
  refine h.write (Raster.size_overwrite _ _ _) ?_
  rw [Raster.extract_overwrite, h.pixels_eq]
  rfl

theorem Copied.replacePixels? (h : c.Copied) {pixels : Array UInt8}
    (hc : c.replacePixels? pixels = .ok c') : c.Follows c' := by
  obtain ⟨hsize, hc⟩ := Fault.unless_bind_eq_ok_iff.mp hc
  obtain ⟨image, himage, hc⟩ := bind_eq_ok_iff.mp hc
  unfold Loaded.replaceSamples? at himage
  split at himage
  · rename_i hall
    cases himage
    cases hc
    have hwhole : pixels.size = c.image.wholeSize := by
      rw [hsize, h.pixels_eq, Loaded.size_wholeRows]
    exact h.write hall (by rw [← hwhole, Array.extract_size])
  · cases himage

theorem Copied.setHole? (h : c.Copied) {x y : Nat} {hole : Bool}
    (hc : c.setHole? x y hole = .ok c') : c.Follows c' := by
  obtain ⟨p, -, hc⟩ := bind_eq_ok_iff.mp hc
  obtain ⟨mask, hmask, hc⟩ := bind_eq_ok_iff.mp hc
  obtain ⟨-, hmask⟩ := Fault.unless_bind_eq_ok_iff.mp hmask
  cases hmask
  cases hc
  refine ⟨⟨h.width_eq, h.height_eq, h.depth_mask, h.pixels_eq, ?_⟩,
    fun hexact => ⟨hexact.image, ?_⟩⟩
  · have hextract (v : UInt8) : (c.mask.samples.setIfInBounds p v).extract 0 c.mask.wholeSize =
        c.mask.wholeRows.setIfInBounds p v := Raster.extract_overwrite _ _ p [v]
    show c.holes.setIfInBounds p hole = _
    rw [Loaded.wholeRows_withSamples, hextract, h.holes_eq]
    cases hole <;> simp [Array.map_setIfInBounds]
  · exact Loaded.spare_withSamples Array.size_setIfInBounds hexact.mask

theorem Copied.clearHoles (h : c.Copied) : c.Follows c.clearHoles := by
  refine ⟨⟨h.width_eq, h.height_eq, h.depth_mask, h.pixels_eq, ?_⟩,
    fun hexact => ⟨hexact.image, ?_⟩⟩
  · show c.holes.map (fun _ => false) = (c.mask.map _).wholeRows.map _
    rw [Loaded.wholeRows_map, h.holes_eq]
    simp [Function.comp_def]
  · show c.mask.spare.map _ = #[]
    rw [hexact.mask, Array.map_empty]

theorem Copied.halve (h : c.Copied) : c.Follows c.halve := by
  unfold LoadedCanvas.halve
  split
  · rename_i hc
    have hw : c.mask.raster.width = c.image.raster.width := h.width_eq
    have hh : c.mask.raster.height = c.image.raster.height := h.height_eq
    have hm : c.mask.raster.halvable = true := by rwa [Raster.halvable, hw, hh]
    refine ⟨copied_recached ?_ ?_ ?_, fun _ => exact_recached _ _⟩
    · show c.mask.raster.halve.width = c.image.raster.halve.width
      rw [Raster.width_halve hc, Raster.width_halve hm, hw]
    · show c.mask.raster.halve.height = c.image.raster.halve.height
      rw [Raster.height_halve hc, Raster.height_halve hm, hh]
    · show c.mask.raster.halve.layout.size = 1
      rw [Raster.layout_halve]
      exact h.depth_mask
  · exact h.follows

theorem Copied.scaleTo? (h : c.Copied) {scaler : PackedScaler} {width height : Nat}
    (hc : c.scaleTo? scaler width height = .ok c') : c.Follows c' := by
  obtain ⟨image, himage, hc⟩ := bind_eq_ok_iff.mp hc
  obtain ⟨mask, hmask, hc⟩ := bind_eq_ok_iff.mp hc
  obtain ⟨_, _, hc⟩ := bind_eq_ok_iff.mp hc
  cases hc
  have himage := Raster.sameShape_of_resample? himage
  have hmask := Raster.sameShape_of_resample? hmask
  refine ⟨copied_recached ?_ ?_ ?_, fun _ => exact_recached _ _⟩
  · exact hmask.width_eq.trans himage.width_eq.symm
  · exact hmask.height_eq.trans himage.height_eq.symm
  · exact hmask.depth_eq.trans h.depth_mask

theorem Copied.restorePixel? (h : c.Copied) {x y : Nat}
    (hc : restorePixel? known y c x = .ok c') : c.Follows c' := by
  obtain ⟨hole, -, hc⟩ := bind_eq_ok_iff.mp hc
  cases hole with
  | true =>
    cases hc
    exact h.follows
  | false =>
    obtain ⟨bytes, -, hc⟩ := bind_eq_ok_iff.mp hc
    exact h.setPixel? hc

/-- Whatever the pixels are taken from. -/
theorem Copied.restore? (h : c.Copied) (hc : c.restore? known = .ok c') : c.Follows c' := by
  obtain ⟨-, hc⟩ := Fault.unless_bind_eq_ok_iff.mp hc
  refine foldlM_preserves (P := c.Follows) (fun {_ _ y} hrow hy => ?_) h.follows hc
  refine foldlM_preserves (P := c.Follows) (fun {_ _ x} hpixel hx => ?_) hrow hy
  exact hpixel.trans (hpixel.copied.restorePixel? hx)

/-- **Every edit keeps the copies.** -/
theorem follows_of_edit? {e : Edit} (h : c.Copied) (hc : c.edit? e = .ok c') : c.Follows c' := by
  cases e with
  | setPixel x y bytes => exact h.setPixel? hc
  | setHole x y hole => exact h.setHole? hc
  | clearHoles =>
    cases hc
    exact h.clearHoles
  | replacePixels pixels => exact h.replacePixels? hc
  | halve =>
    cases hc
    exact h.halve
  | restore known => exact h.restore? hc
  | scaleTo scaler width height => exact h.scaleTo? hc

theorem follows_of_edits? {edits : List Edit} (h : c.Copied) (hc : c.edits? edits = .ok c') :
    c.Follows c' :=
  foldlM_preserves (P := c.Follows)
    (fun hstep he => hstep.trans (follows_of_edit? hstep.copied he)) h.follows hc

/-! ### What can be read off -/

/-- The two sides say the same: image and mask have one size and as many samples as their sides and
channels ask for, the copy has the samples of the image, a flag is set where the mask sample is not
zero, and so holes, pixels and single flags are those of the rasters. -/
structure Agrees (c : LoadedCanvas) : Prop where
  width_eq : c.mask.width = c.image.width
  height_eq : c.mask.height = c.image.height
  depth_mask : c.mask.depth = 1
  size_image : c.image.samples.size = c.image.width * c.image.height * c.image.depth
  size_mask : c.mask.samples.size = c.mask.width * c.mask.height
  pixels_eq : c.pixels = c.image.samples
  flag_eq : ∀ i : Nat, c.holes[i]? = c.mask.samples[i]?.map fun v => decide (v ≠ 0)
  countHoles_eq : c.countHoles = c.mask.samples.countP (· ≠ 0)
  pixel_eq : ∀ x y, c.pixel? x y = c.image.pixel? x y
  isHole_eq : ∀ x y, c.isHole? x y =
    match c.mask.samples[y * c.image.width + x]? with
    | some v => .ok (v ≠ 0)
    | none => .error .outOfRange

theorem Agrees.exact (h : c.Agrees) : c.Exact where
  image := c.image.spare_eq_iff.mpr h.size_image
  mask := by rw [c.mask.spare_eq_iff, h.depth_mask, Nat.mul_one, h.size_mask]

theorem Copied.agrees (h : c.Copied) (hexact : c.Exact) : c.Agrees := by
  have hpixels : c.pixels = c.image.samples :=
    h.pixels_eq.trans (Loaded.wholeRows_eq hexact.image)
  have hholes : c.holes = c.mask.samples.map fun v => decide (v ≠ 0) := by
    rw [h.holes_eq, Loaded.wholeRows_eq hexact.mask]
  exact {
    width_eq := h.width_eq
    height_eq := h.height_eq
    depth_mask := h.depth_mask
    size_image := c.image.spare_eq_iff.mp hexact.image
    size_mask := by
      rw [c.mask.spare_eq_iff.mp hexact.mask, h.depth_mask, Nat.mul_one]
    pixels_eq := hpixels
    flag_eq := fun i => by rw [hholes, Array.getElem?_map]
    countHoles_eq := by
      rw [countHoles, hholes, Array.count_eq_countP, Array.countP_map]
      congr 1
      funext v
      simp
    pixel_eq := fun x y => by
      rw [pixel?, slot?, hpixels]
      rfl
    isHole_eq := fun x y => by
      have hcell : y * c.width + x = y * c.image.width + x := rfl
      by_cases hlt : y * c.image.width + x < c.mask.samples.size
      · have hflag : c.flag? x y = .ok (y * c.image.width + x) := by
          rw [flag?, hcell, Fault.unless_of (by rwa [hholes, Array.size_map])]
          rfl
        rw [isHole?, hflag, Array.getElem?_eq_getElem hlt]
        simp [bind, Except.bind, pure, Except.pure, hholes, Array.getD, hlt]
      · have hflag : c.flag? x y = .error .outOfRange := by
          rw [flag?, hcell, Fault.unless_of_not (by rwa [hholes, Array.size_map])]
          rfl
        rw [isHole?, hflag, Array.getElem?_eq_none (Nat.not_lt.mp hlt)]
        rfl }

/-- The two sides agree exactly where nothing is behind the last pixel. -/
theorem Copied.agrees_iff (h : c.Copied) : c.Agrees ↔ c.Exact :=
  ⟨Agrees.exact, h.agrees⟩

/-- **The copies of a canvas are kept**, whatever has been done to it: from any pair of an image
and a mask that is accepted, after any edits that end with a canvas, they hold the complete rows of
both buffers.  They agree with the rasters exactly where no buffer goes on behind the last pixel,
and so they do whenever the image and the mask that were paired have nothing there. -/
theorem agrees_of_edits?_iff {image mask : Loaded} {edits : List Edit}
    (hpair : pair? image mask = .ok c) (hedits : c.edits? edits = .ok c') :
    c'.Copied ∧ (c'.Agrees ↔ c'.Exact) ∧
      (image.spare = #[] → mask.spare = #[] → c'.Agrees) := by
  obtain ⟨rfl, hcopied⟩ := eq_recached_of_pair? hpair
  have hfollows := follows_of_edits? hcopied hedits
  refine ⟨hfollows.copied, hfollows.copied.agrees_iff, fun himage hmask => ?_⟩
  exact hfollows.copied.agrees (hfollows.exact ⟨himage, hmask⟩)

/-- Three by two pixels of a colour and an opacity. -/
def stripedImage : Raster :=
  .generate 3 2 #[.color, .alpha] fun p k => (40 * p + k).toUInt8

/-- A picture of two by two pixels with one sample too many. -/
def overlongPicture : Picture where
  width := 2
  height := 2
  model := .rgb
  hasAlpha := false
  store := .bytes #[0, 20, 40, 60, 80, 100, 120, 140, 160, 180, 200, 220, 240]
  size_le := by decide

/-- What is loaded from it. -/
def overlongImage : Loaded :=
  ⟨.generate 2 2 .rgb fun p k => (60 * p + 20 * k).toUInt8, #[240]⟩

/-- Edits of a canvas with pixels, of one without, of one without channels, and of one with a sample
too many, which is gone when the canvas has been halved.  The first pixel that is set and the first
hole are past the end of their rows. -/
theorem agrees_of_edits?_iff_striped :
    (∃ c c', pair? (.ofRaster stripedImage) (.ofRaster (.blank 3 2 .gray)) = .ok c ∧
      c.edits? [.setPixel 4 0 [7, 8], .setHole 5 0 true, .replacePixels (.replicate 12 9),
        .restore (Canvas.ofParts stripedImage (.ofHoles 3 2 fun x _ => x == 1)).loaded,
        .scaleTo .triangle 4 4, .halve, .setHole 0 1 true] = .ok c' ∧ c'.Agrees) ∧
    (∃ c c', pair? (.ofRaster (.blank 0 3 .rgb)) (.ofRaster (.blank 0 3 .gray)) = .ok c ∧
      c.edits? [.halve, .replacePixels #[], .clearHoles, .scaleTo .triangle 2 2,
        .setHole 1 1 true] = .ok c' ∧ c'.Agrees) ∧
    (∃ c c', pair? (.ofRaster (.blank 3 2 #[])) (.ofRaster (.blank 3 2 .gray)) = .ok c ∧
      c.edits? [.setPixel 70 9 [], .setHole 2 1 true, .halve] = .ok c' ∧ c'.Agrees) ∧
    ∃ c c', pair? overlongImage (.ofRaster (.blank 2 2 .gray)) = .ok c ∧
      c.edits? [.setPixel 1 1 [4, 24, 44], .halve] = .ok c' ∧ c'.Agrees := by
  have hexact {image mask : Raster} {edits : List Edit} {c : LoadedCanvas}
      (hpair : pair? (.ofRaster image) (.ofRaster mask) = .ok c)
      (hok : (c.edits? edits).isOk = true) : ∃ c c', pair? (.ofRaster image) (.ofRaster mask) =
        .ok c ∧ c.edits? edits = .ok c' ∧ c'.Agrees := by
    cases hedits : c.edits? edits with
    | error =>
      rw [hedits] at hok
      cases hok
    | ok c' => exact ⟨c, c', hpair, hedits, (agrees_of_edits?_iff hpair hedits).2.2 rfl rfl⟩
  have hpair : pair? overlongImage (.ofRaster (.blank 2 2 .gray)) =
      .ok (recached overlongImage (.ofRaster (.blank 2 2 .gray))) := rfl
  have hedits : (recached overlongImage (.ofRaster (.blank 2 2 .gray))).edits?
      [.setPixel 1 1 [4, 24, 44], .halve] = .ok (recached
        (.ofRaster (.generate 1 1 .rgb fun _ k => (46 + 20 * k).toUInt8))
        (.ofRaster (.blank 1 1 .gray))) := by decide +kernel
  exact ⟨hexact (c := recached _ _) rfl (by decide +kernel),
    hexact (c := recached _ _) rfl (by decide +kernel),
    hexact (c := recached _ _) rfl (by decide +kernel),
    _, _, hpair, hedits, (agrees_of_edits?_iff hpair hedits).2.1.mpr (exact_recached _ _)⟩

/-- A sample too many is taken along, and not copied. -/
theorem pair?_overlong :
    overlongPicture.load? = .ok overlongImage ∧
    ∃ c, pair? overlongImage (.ofRaster (.blank 2 2 .gray)) = .ok c ∧
      c.image.samples.size = 13 ∧ c.pixels.size = 12 ∧ ¬ c.Agrees := by
  refine ⟨rfl, recached _ _, rfl, rfl, by decide +kernel, fun hagrees => ?_⟩
  have hsize : (13 : Nat) = 12 := hagrees.size_image
  cases hsize

end LoadedCanvas

end Retouch
