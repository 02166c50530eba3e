import Retouch.Fault
import Retouch.Number.Byte
import Retouch.Number.Word

/-!
# Retouch — Raster

A raster is a grid of pixels stored row by row, the samples of a pixel side by side.  Pixel `p` is
the one at column `p % width` of row `p / width`, and the type itself says that the buffer holds
one sample for every channel of every pixel.  Buffers that go on behind the last pixel are `Loaded`.

The view of a raster is `sample p c`.  The builders (`generate`) and the writers (`withPixel`) are
described through it: `sample_generate` reads a built raster back, and two rasters of one shape
with the same samples are equal (`ext_sample`).

Positions given as a column and a row are looked up in the flat buffer (`slot?`), so a column
beyond the right edge runs on into the next row; only a position past the end is a fault.
-/

namespace Retouch

/-- A grid of 8-bit pixels, row by row, channels interleaved. -/
structure Raster where
  width : Nat
  height : Nat
  layout : Layout
  samples : Array UInt8
  size_eq : samples.size = width * height * layout.size
  deriving DecidableEq

namespace Raster

/-- Samples per pixel. -/
def depth (r : Raster) : Nat :=
  r.layout.size

/-- Number of pixels. -/
def area (r : Raster) : Nat :=
  r.width * r.height

/-- Sample of channel `c` in pixel `p`; past the end of the buffer, 0. -/
def sample (r : Raster) (p c : Nat) : UInt8 :=
  r.samples.getD (p * r.depth + c) 0

/-- The samples of pixel `p`. -/
def pixel (r : Raster) (p : Nat) : List UInt8 :=
  (List.range r.depth).map (r.sample p)

@[simp]
theorem length_pixel (r : Raster) (p : Nat) : (r.pixel p).length = r.depth := by
  rw [pixel, List.length_map, List.length_range]

/-! ### Building -/

/-- The raster whose pixel `p` has the sample `f p c` in channel `c`. -/
def generate (width height : Nat) (layout : Layout) (f : Nat → Nat → UInt8) : Raster where
  width
  height
  layout
  samples := Array.ofFn fun i : Fin (width * height * layout.size) =>
    f (i / layout.size) (i % layout.size)
  size_eq := Array.size_ofFn

/-- A raster of zeros. -/
def blank (width height : Nat) (layout : Layout) : Raster where
  width
  height
  layout
  samples := Array.replicate (width * height * layout.size) 0
  size_eq := Array.size_replicate

/-- Whether the pixels of such a raster can be counted and its samples allocated. -/
def checkSize (width height : Nat) (layout : Layout) : Except Fault Unit :=
  Fault.overflow.unless
    (width * height < Word.span64 ∧ width * height * layout.size < Word.half64)

/-- A raster of zeros, provided that it can be allocated. -/
def blank? (width height : Nat) (layout : Layout) : Except Fault Raster := do
  checkSize width height layout
  return blank width height layout

/-- The raster over a given buffer, which must hold exactly the samples that the sides and the
layout ask for. -/
def ofSamples? (width height : Nat) (layout : Layout) (samples : Array UInt8) :
    Except Failure Raster :=
  if layout = #[] then
    .error (.refusal .noChannel)
  else if Word.span64 ≤ width * height * layout.size then
    .error (.fault .overflow)
  else if h : samples.size = width * height * layout.size then
    .ok ⟨width, height, layout, samples, h⟩
  else
    .error (.refusal (.sampleCount (width * height * layout.size) samples.size))

/-- The one-channel raster with 255 in the cells that are holes and 0 in the others. -/
def ofHoles (width height : Nat) (isHole : Nat → Nat → Bool) : Raster :=
  generate width height .gray fun p _ => if isHole (p % width) (p / width) then 255 else 0

/-- `ofHoles`, provided that the raster can be allocated. -/
def ofHoles? (width height : Nat) (isHole : Nat → Nat → Bool) : Except Fault Raster := do
  checkSize width height .gray
  return ofHoles width height isHole

/-- The raster with `f` applied to every sample. -/
def map (f : UInt8 → UInt8) (r : Raster) : Raster :=
  { r with
    samples := r.samples.map f
    size_eq := by rw [Array.size_map, r.size_eq] }

/-- Cuts at `limit`: samples above it become 255, the others 0. -/
def threshold (limit : UInt8) (r : Raster) : Raster :=
  r.map fun v => if limit < v then 255 else 0

/-! ### Writing -/

/-- The buffer with `bytes` written from position `start` on; what would fall past the end is
dropped. -/
def overwrite (samples : Array UInt8) (start : Nat) : List UInt8 → Array UInt8
  | [] => samples
  | b :: bytes => overwrite (samples.setIfInBounds start b) (start + 1) bytes

@[simp]
theorem size_overwrite (samples : Array UInt8) (start : Nat) (bytes : List UInt8) :
    (overwrite samples start bytes).size = samples.size := by
  induction bytes generalizing samples start with
  | nil => rfl
  | cons b bytes ih => rw [overwrite, ih, Array.size_setIfInBounds]

/-- The raster with the first samples of pixel `p` replaced by `bytes`; those beyond the last
channel are dropped. -/
def withPixel (r : Raster) (p : Nat) (bytes : List UInt8) : Raster :=
  { r with
    samples := overwrite r.samples (p * r.depth) (bytes.take r.depth)
    size_eq := by rw [size_overwrite, r.size_eq] }

/-- The raster with the sample at buffer index `i` replaced. -/
def withSample (r : Raster) (i : Nat) (v : UInt8) : Raster :=
  { r with
    samples := r.samples.setIfInBounds i v
    size_eq := by rw [Array.size_setIfInBounds, r.size_eq] }

/-! ### Access by column and row -/

/-- The pixel at column `x` of row `y`, counted along the buffer. -/
def slot? (r : Raster) (x y : Nat) : Except Fault Nat := do
  let p := y * r.width + x
  Fault.outOfRange.unless (p < Word.span64 ∧ (p + 1) * r.depth ≤ r.samples.size)
  return p

/-- The samples of the pixel at `(x, y)`. -/
def pixel? (r : Raster) (x y : Nat) : Except Fault (List UInt8) :=
  return r.pixel (← r.slot? x y)

/-- The samples of the pixel at `(x, y)` as fractions of 255. -/
def fractions? (r : Raster) (x y : Nat) : Except Fault (List Float32) :=
  return (← r.pixel? x y).map Byte.toUnit

/-- Replaces the pixel at `(x, y)` by as many bytes as it has channels. -/
def setPixel? (r : Raster) (x y : Nat) (bytes : List UInt8) : Except Fault Raster := do
  let p ← r.slot? x y
  Fault.sizeMismatch.unless (bytes.length = r.depth)
  return r.withPixel p bytes

/-- Replaces the first channels of the pixel at `(x, y)`, given as fractions of 255 and clamped;
channels without a fraction stay, fractions without a channel are ignored. -/
def setFractions? (r : Raster) (x y : Nat) (values : List Float32) : Except Fault Raster := do
  let p ← r.slot? x y
  return r.withPixel p (values.map Byte.ofUnit)

/-- Replaces the sample at buffer index `i`. -/
def setSample? (r : Raster) (i : Nat) (v : UInt8) : Except Fault Raster := do
  Fault.outOfRange.unless (i < r.samples.size)
  return r.withSample i v

/-- Replaces all samples by as many others. -/
def replaceSamples? (r : Raster) (samples : Array UInt8) : Except Fault Raster :=
  if h : samples.size = r.samples.size then
    .ok { r with
      samples
      size_eq := by rw [h, r.size_eq] }
  else
    .error .sizeMismatch

/-- Whether channel `c` carries colour. -/
def isColor? (r : Raster) (c : Nat) : Except Fault Bool :=
  match r.layout[c]? with
  | some channel => .ok channel.isColor
  | none => .error .outOfRange

/-- The rows as byte lists, top first; a raster without samples has none. -/
def rows (r : Raster) : List (List UInt8) :=
  let stride := r.width * r.depth
  if stride = 0 then []
  else (List.range r.height).map fun y => (r.samples.extract (y * stride) ((y + 1) * stride)).toList

/-- `rows`, provided that the length of a row fits its word. -/
def rows? (r : Raster) : Except Fault (List (List UInt8)) := do
  Fault.overflow.unless (r.width * r.depth < Word.span64)
  return r.rows

/-! ### The view -/

theorem size_samples (r : Raster) : r.samples.size = r.area * r.depth :=
  r.size_eq

/-- Position of a sample in the buffer. -/
theorem index_lt {p c area depth : Nat} (hp : p < area) (hc : c < depth) :
    p * depth + c < area * depth :=
  calc
    p * depth + c < p * depth + depth := Nat.add_lt_add_left hc _
    _ = (p + 1) * depth := (Nat.succ_mul p depth).symm
    _ ≤ area * depth := Nat.mul_le_mul_right _ hp

theorem index_div {c depth : Nat} (p : Nat) (hc : c < depth) : (p * depth + c) / depth = p := by
  rw [Nat.mul_comm, Nat.mul_add_div (Nat.zero_lt_of_lt hc), Nat.div_eq_of_lt hc, Nat.add_zero]

theorem index_mod {c depth : Nat} (p : Nat) (hc : c < depth) : (p * depth + c) % depth = c := by
  rw [Nat.mul_add_mod', Nat.mod_eq_of_lt hc]

/-- A position in the buffer determines both of its parts. -/
theorem index_inj {p q c k depth : Nat} (hc : c < depth) (hk : k < depth) :
    p * depth + c = q * depth + k ↔ p = q ∧ c = k := by
  constructor
  · intro h
    have hdiv := congrArg (· / depth) h
    have hmod := congrArg (· % depth) h
    simp only [index_div _ hc, index_div _ hk, index_mod _ hc, index_mod _ hk] at hdiv hmod
    exact ⟨hdiv, hmod⟩
  · rintro ⟨rfl, rfl⟩
    rfl

/-- Column `x` of row `y` is one of the pixels. -/
theorem cell_lt_area {r : Raster} {x y : Nat} (hx : x < r.width) (hy : y < r.height) :
    y * r.width + x < r.area := by
  rw [area, Nat.mul_comm r.width]
  exact index_lt hy hx

/-- Every pixel is in a column and a row. -/
theorem exists_cell_eq {r : Raster} {p : Nat} (hp : p < r.area) :
    ∃ x < r.width, ∃ y < r.height, y * r.width + x = p := by
  have hw : 0 < r.width := Nat.pos_of_mul_pos_right (Nat.zero_lt_of_lt hp)
  refine ⟨p % r.width, Nat.mod_lt p hw, p / r.width, Nat.div_lt_of_lt_mul hp, ?_⟩
  rw [Nat.mul_comm]
  exact Nat.div_add_mod p r.width

/-- Row by row, all cells come up in order. -/
theorem flatMap_rows (rows columns : Nat) :
    ((List.range rows).flatMap fun y => (List.range columns).map fun x => y * columns + x) =
      List.range (rows * columns) := by
  induction rows with
  | zero => rw [Nat.zero_mul]; rfl
  | succ rows ih =>
    rw [List.range_succ, List.flatMap_append, ih, List.flatMap_singleton, ← List.range_add,
      Nat.succ_mul]

/-- A built raster reads back what it was built from. -/
theorem sample_generate {width height : Nat} {layout : Layout} {f : Nat → Nat → UInt8} {p c : Nat}
    (hp : p < width * height) (hc : c < layout.size) :
    (generate width height layout f).sample p c = f p c := by
  have hi : p * layout.size + c < width * height * layout.size := index_lt hp hc
  simp [sample, depth, generate, Array.getD, hi, index_div p hc, index_mod p hc]

theorem sample_blank (width height : Nat) (layout : Layout) (p c : Nat) :
    (blank width height layout).sample p c = 0 := by
  simp only [sample, blank, Array.getD_eq_getD_getElem?, Array.getElem?_replicate]
  split <;> rfl

theorem sample_threshold (limit : UInt8) (r : Raster) (p c : Nat) :
    (r.threshold limit).sample p c = if limit < r.sample p c then 255 else 0 := by
  have hzero : ¬ limit < 0 := UInt8.not_lt.mpr (UInt8.le_iff_toNat_le.mpr (Nat.zero_le _))
  simp only [sample, threshold, map, depth, Array.getD_eq_getD_getElem?, Array.getElem?_map]
  cases r.samples[p * r.layout.size + c]? <;> simp [hzero]

theorem getElem?_overwrite (samples : Array UInt8) (start : Nat) (bytes : List UInt8) (i : Nat) :
    (overwrite samples start bytes)[i]? =
      if start ≤ i ∧ i < start + bytes.length ∧ i < samples.size then bytes[i - start]?
      else samples[i]? := by
  induction bytes generalizing samples start with
  | nil =>
    simp only [overwrite, List.length_nil, Nat.add_zero]
    rw [if_neg (by omega)]
  | cons b bytes ih =>
    rw [overwrite, ih, Array.size_setIfInBounds, Array.getElem?_setIfInBounds]
    rcases Nat.lt_trichotomy i start with h | h | h
    · have h₁ : ¬ start + 1 ≤ i := by omega
      have h₂ : ¬ start ≤ i := by omega
      simp [h₁, h₂, Nat.ne_of_gt h]
    · subst h
      have h₁ : ¬ i + 1 ≤ i := by omega
      by_cases hi : i < samples.size <;> simp [hi, h₁]
    · have h₁ : start + 1 ≤ i := h
      have h₂ : start ≤ i := Nat.le_of_lt h
      have h₃ : i - start = i - (start + 1) + 1 := by omega
      have h₄ : i < start + 1 + bytes.length ↔ i < start + (b :: bytes).length := by
        rw [List.length_cons]; omega
      simp only [h₁, h₂, h₃, h₄, true_and, List.getElem?_cons_succ, Nat.ne_of_lt h, if_false]

/-- Writing a pixel changes this pixel only. -/
theorem sample_withPixel {r : Raster} {p : Nat} {bytes : List UInt8} (hp : p < r.area)
    (hb : bytes.length = r.depth) {q c : Nat} (hc : c < r.depth) :
    (r.withPixel p bytes).sample q c = if q = p then bytes.getD c 0 else r.sample q c := by
  have hsize := r.size_samples
  have hrow : (p + 1) * r.depth ≤ r.area * r.depth := Nat.mul_le_mul_right _ hp
  rw [Nat.succ_mul] at hrow
  simp only [sample, withPixel, depth, Array.getD_eq_getD_getElem?, getElem?_overwrite] at *
  rw [List.take_of_length_le (Nat.le_of_eq hb)]
  by_cases hq : q = p
  · subst hq
    have : q * r.layout.size ≤ q * r.layout.size + c ∧
        q * r.layout.size + c < q * r.layout.size + bytes.length ∧
        q * r.layout.size + c < r.samples.size := by omega
    simp [this]
  · have : ¬ (p * r.layout.size ≤ q * r.layout.size + c ∧
        q * r.layout.size + c < p * r.layout.size + bytes.length ∧
        q * r.layout.size + c < r.samples.size) := by
      rintro ⟨h₁, h₂, -⟩
      rcases Nat.lt_or_gt_of_ne hq with h | h
      · have := Nat.mul_le_mul_right r.layout.size h
        rw [Nat.succ_mul] at this; omega
      · have := Nat.mul_le_mul_right r.layout.size h
        rw [Nat.succ_mul] at this; omega
    simp [this, hq]

/-- Writing a sample changes this sample only. -/
theorem sample_withSample {r : Raster} {p c q k : Nat} (hp : p < r.area) (hc : c < r.depth)
    (hk : k < r.depth) (v : UInt8) : (r.withSample (p * r.depth + c) v).sample q k =
      if q = p ∧ k = c then v else r.sample q k := by
  have hi : p * r.depth + c < r.samples.size := r.size_samples ▸ index_lt hp hc
  have hsame : p * r.depth + c = q * r.depth + k ↔ q = p ∧ k = c := by
    rw [index_inj hc hk, eq_comm, @eq_comm _ c]
  show (r.samples.setIfInBounds (p * r.depth + c) v).getD (q * r.depth + k) 0 = _
  simp only [sample, Array.getD_eq_getD_getElem?, Array.getElem?_setIfInBounds, hsame, hi, if_true]
  split <;> rfl

/-- Inside a raster that can be addressed, every column and row is a pixel. -/
theorem slot?_eq_ok {r : Raster} {x y : Nat} (hx : x < r.width) (hy : y < r.height)
    (hspan : r.area ≤ Word.span64) : r.slot? x y = .ok (y * r.width + x) := by
  have hp : y * r.width + x < r.area := cell_lt_area hx hy
  have hrow : (y * r.width + x + 1) * r.depth ≤ r.samples.size :=
    r.size_samples ▸ Nat.mul_le_mul_right r.depth hp
  rw [slot?, Fault.unless_of ⟨Nat.lt_of_lt_of_le hp hspan, hrow⟩]
  rfl

/-- The two rasters have the same sides and the same channels. -/
structure SameShape (r s : Raster) : Prop where
  width_eq : r.width = s.width
  height_eq : r.height = s.height
  layout_eq : r.layout = s.layout

theorem SameShape.refl (r : Raster) : r.SameShape r :=
  ⟨rfl, rfl, rfl⟩

theorem SameShape.trans {r s t : Raster} (hrs : r.SameShape s) (hst : s.SameShape t) :
    r.SameShape t :=
  ⟨hrs.width_eq.trans hst.width_eq, hrs.height_eq.trans hst.height_eq,
    hrs.layout_eq.trans hst.layout_eq⟩

theorem sameShape_threshold (limit : UInt8) (r : Raster) : (r.threshold limit).SameShape r :=
  ⟨rfl, rfl, rfl⟩

theorem SameShape.area_eq {r s : Raster} (h : r.SameShape s) : r.area = s.area := by
  rw [area, area, h.width_eq, h.height_eq]

theorem SameShape.depth_eq {r s : Raster} (h : r.SameShape s) : r.depth = s.depth :=
  congrArg Array.size h.layout_eq

theorem SameShape.size_samples_eq {r s : Raster} (h : r.SameShape s) :
    r.samples.size = s.samples.size := by
  rw [r.size_samples, s.size_samples, h.area_eq, h.depth_eq]

theorem ext_samples {r s : Raster} (hw : r.width = s.width) (hh : r.height = s.height)
    (hl : r.layout = s.layout) (hs : r.samples = s.samples) : r = s := by
  cases r; cases s
  simp only [Raster.mk.injEq] at *
  exact ⟨hw, hh, hl, hs⟩

/-- Two rasters of one shape with the same samples are equal. -/
theorem ext_sample {r s : Raster} (hw : r.width = s.width) (hh : r.height = s.height)
    (hl : r.layout = s.layout)
    (h : ∀ p < r.area, ∀ c < r.depth, r.sample p c = s.sample p c) : r = s := by
  have hsize : r.samples.size = s.samples.size := by rw [r.size_eq, s.size_eq, hw, hh, hl]
  have hd : r.depth = s.depth := by rw [depth, depth, hl]
  have hsamples : r.samples = s.samples := by
    refine Array.ext hsize fun i hi hi' => ?_
    have hpos : 0 < r.depth := by
      rcases Nat.eq_zero_or_pos r.depth with h0 | h0
      · rw [r.size_samples, h0, Nat.mul_zero] at hi; omega
      · exact h0
    have hp : i / r.depth < r.area :=
      Nat.div_lt_of_lt_mul (by rw [Nat.mul_comm, ← r.size_samples]; exact hi)
    have := h (i / r.depth) hp (i % r.depth) (Nat.mod_lt _ hpos)
    have hix : i / r.depth * r.depth + i % r.depth = i := by
      rw [Nat.mul_comm]; exact Nat.div_add_mod i r.depth
    simpa [sample, ← hd, hix, Array.getD, hi, hi'] using this
  exact ext_samples hw hh hl hsamples

/-- What a raster is built from matters inside of it only. -/
theorem generate_congr {width height : Nat} {layout : Layout} {f g : Nat → Nat → UInt8}
    (h : ∀ p < width * height, ∀ c < layout.size, f p c = g p c) :
    generate width height layout f = generate width height layout g := by
  refine ext_sample rfl rfl rfl fun p hp c hc => ?_
  have hp' : p < width * height := hp
  have hc' : c < layout.size := hc
  rw [sample_generate hp' hc', sample_generate hp' hc', h p hp' c hc']

end Raster

end Retouch
