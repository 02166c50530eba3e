import Retouch.Raster.Picture

/-!
# Retouch — Raster — Whole buffers

A loaded raster may hold samples behind its last pixel (`Loaded.spare`), and whoever goes along the
buffer does not stop at the last pixel.  So access by column and row is bounded by the whole buffer
(`slot?`), a buffer is replaced only by one of the same length (`replaceSamples?`), and the rows are
those of the buffer, as many as fit in it (`rows`).  Where there is nothing behind the last pixel,
these are the rows of the raster (`rows_ofRaster`).
-/

namespace Retouch.Loaded

/-- The raster with nothing behind its last pixel. -/
def ofRaster (r : Raster) : Loaded :=
  ⟨r, #[]⟩

/-- Number of columns. -/
def width (l : Loaded) : Nat :=
  l.raster.width

/-- Number of rows. -/
def height (l : Loaded) : Nat :=
  l.raster.height

/-- Samples per pixel. -/
def depth (l : Loaded) : Nat :=
  l.raster.depth

/-- The whole buffer. -/
def samples (l : Loaded) : Array UInt8 :=
  l.raster.samples ++ l.spare

theorem size_samples (l : Loaded) : l.samples.size = l.raster.samples.size + l.spare.size :=
  Array.size_append

@[simp]
theorem samples_ofRaster (r : Raster) : (ofRaster r).samples = r.samples :=
  Array.append_empty

/-- The buffer replaced by one of the same length. -/
def withSamples (l : Loaded) (samples : Array UInt8) (h : samples.size = l.samples.size) :
    Loaded where
  raster := { l.raster with
    samples := samples.extract 0 l.raster.samples.size
    size_eq := by
      rw [Array.size_extract, h, l.size_samples, ← l.raster.size_eq]
      omega }
  spare := samples.extract l.raster.samples.size samples.size

@[simp]
theorem samples_withSamples {l : Loaded} {samples : Array UInt8}
    (h : samples.size = l.samples.size) : (l.withSamples samples h).samples = samples := by
  have hle : l.raster.samples.size ≤ samples.size := h ▸ l.size_samples ▸ Nat.le_add_right _ _
  show samples.extract 0 _ ++ samples.extract _ _ = samples
  rw [Array.extract_append_extract, Nat.zero_min, Nat.max_eq_right hle, Array.extract_size]

/-- Where nothing is behind the last pixel, nothing comes there. -/
theorem spare_withSamples {l : Loaded} {samples : Array UInt8}
    (h : samples.size = l.samples.size) (hspare : l.spare = #[]) :
    (l.withSamples samples h).spare = #[] := by
  have hsize := l.size_samples
  rw [hspare, Array.size_empty] at hsize
  rw [withSamples, ← Array.size_eq_zero_iff, Array.size_extract]
  omega

/-- With nothing behind the last pixel, a buffer of the same length is that of a raster. -/
theorem withSamples_ofRaster {r s : Raster} (hshape : s.SameShape r)
    {samples : Array UInt8} (hs : samples = s.samples)
    (h : samples.size = (ofRaster r).samples.size) :
    (ofRaster r).withSamples samples h = ofRaster s := by
  subst hs
  have hsize : s.samples.size = r.samples.size := hshape.size_samples_eq
  have hraster : ((ofRaster r).withSamples s.samples h).raster = s := by
    refine Raster.ext_samples hshape.width_eq.symm hshape.height_eq.symm hshape.layout_eq.symm ?_
    show s.samples.extract 0 r.samples.size = s.samples
    rw [← hsize, Array.extract_size]
  have hspare : ((ofRaster r).withSamples s.samples h).spare = #[] := by
    show s.samples.extract r.samples.size s.samples.size = #[]
    rw [hsize, Array.extract_eq_empty_of_le (Nat.min_le_left _ _)]
  generalize (ofRaster r).withSamples s.samples h = l at hraster hspare
  cases l
  cases hraster
  cases hspare
  rfl

/-- The raster with `f` applied to every sample of the buffer. -/
def map (f : UInt8 → UInt8) (l : Loaded) : Loaded :=
  ⟨l.raster.map f, l.spare.map f⟩

theorem samples_map (f : UInt8 → UInt8) (l : Loaded) : (l.map f).samples = l.samples.map f :=
  Array.map_append.symm

/-- Cuts at `limit`: samples above it become 255, the others 0. -/
def threshold (limit : UInt8) (l : Loaded) : Loaded :=
  l.map fun v => if limit < v then 255 else 0

/-! ### Access by column and row -/

/-- The pixel at column `x` of row `y`, counted along the buffer. -/
def slot? (l : Loaded) (x y : Nat) : Except Fault Nat := do
  let p := y * l.width + x
  Fault.outOfRange.unless (p < Word.span64 ∧ (p + 1) * l.depth ≤ l.samples.size)
  return p

/-- The samples of the pixel at `(x, y)`. -/
def pixel? (l : Loaded) (x y : Nat) : Except Fault (List UInt8) := do
  let p ← l.slot? x y
  return (List.range l.depth).map fun k => l.samples.getD (p * l.depth + k) 0

/-- Replaces the pixel at `(x, y)` by as many bytes as it has channels. -/
def setPixel? (l : Loaded) (x y : Nat) (bytes : List UInt8) : Except Fault Loaded := do
  let p ← l.slot? x y
  Fault.sizeMismatch.unless (bytes.length = l.depth)
  return l.withSamples (Raster.overwrite l.samples (p * l.depth) bytes)
    (Raster.size_overwrite _ _ _)

/-- Replaces the sample at buffer index `i`. -/
def setSample? (l : Loaded) (i : Nat) (v : UInt8) : Except Fault Loaded := do
  Fault.outOfRange.unless (i < l.samples.size)
  return l.withSamples (l.samples.setIfInBounds i v) Array.size_setIfInBounds

/-- Replaces all samples by as many others. -/
def replaceSamples? (l : Loaded) (samples : Array UInt8) : Except Fault Loaded :=
  if h : samples.size = l.samples.size then .ok (l.withSamples samples h)
  else .error .sizeMismatch

theorem replaceSamples?_ofRaster (r : Raster) (samples : Array UInt8) :
    (ofRaster r).replaceSamples? samples = (r.replaceSamples? samples).map ofRaster := by
  rw [replaceSamples?, Raster.replaceSamples?]
  by_cases hsize : samples.size = r.samples.size
  · have hsize' : samples.size = (ofRaster r).samples.size := by rw [hsize, samples_ofRaster]
    rw [dif_pos hsize', dif_pos hsize]
    let written : Raster := { r with samples, size_eq := by rw [hsize, r.size_eq] }
    have hshape : written.SameShape r := ⟨rfl, rfl, rfl⟩
    exact congrArg Except.ok (withSamples_ofRaster hshape rfl hsize')
  · have hsize' : ¬ samples.size = (ofRaster r).samples.size := by rwa [samples_ofRaster]
    rw [dif_neg hsize', dif_neg hsize]
    rfl

/-! ### Rows -/

/-- The length of a row; where a row has no samples, 1. -/
def stride (l : Loaded) : Nat :=
  max (l.width * l.depth) 1

/-- The rows of the buffer as byte lists, top first.  A last row that is not complete is none. -/
def rows (l : Loaded) : List (List UInt8) :=
  (List.range (l.samples.size / l.stride)).map fun y =>
    (l.samples.extract (y * l.stride) ((y + 1) * l.stride)).toList

theorem rows_ofRaster (r : Raster) : (ofRaster r).rows = r.rows := by
  have hsize : r.samples.size = r.height * (r.width * r.depth) := by
    rw [r.size_eq, Raster.depth, Nat.mul_comm r.width, Nat.mul_assoc]
  have hstride : (ofRaster r).stride = max (r.width * r.depth) 1 := rfl
  rw [rows, samples_ofRaster, hstride, hsize, Raster.rows]
  split
  · rename_i hzero
    rw [hzero, Nat.mul_zero, Nat.zero_div]
    rfl
  · rename_i hpos
    have hpos : 0 < r.width * r.depth := Nat.pos_of_ne_zero hpos
    rw [Nat.max_eq_left hpos, Nat.mul_div_cancel _ hpos]

end Retouch.Loaded
