import Retouch.Raster.Packed

/-!
# Retouch — Raster — Channels alike

A packed scaler is *channelwise* when every channel of its outcome is what it makes of that channel
alone (`PackedScaler.ChannelWise`).  The triangle filter is (`PackedScaler.channelWise_triangle`):
the weights of an output sample are those of its position, whatever the channel.

With a channelwise scaler both ways of handing over pixels come to the same raster, in every layout
(`Raster.scalePixels?_eq_ok`, `Raster.scalePlanes?_eq_ok`).  So a channel is scaled as if it were
the only one, and it does not matter what the channels are called and in which order they come
(`Raster.resample?_alike`).  For sides that fit their words this is the scaling of planes that the
rest of the library is written with (`Raster.resample?_eq_scaleTo?`).
-/

namespace Retouch

/-! ### Interleaved buffers -/

section Interleaved

variable {α : Type} {n depth p k : Nat} {f : Nat → Nat → α}

/-- `n` pixels of `depth` samples side by side. -/
def interleaved (n depth : Nat) (f : Nat → Nat → α) : Array α :=
  Array.ofFn fun i : Fin (n * depth) => f (i / depth) (i % depth)

theorem getD_interleaved (hk : k < depth) (default : α) :
    (interleaved n depth f).getD (p * depth + k) default = if p < n then f p k else default := by
  have hlt : p * depth + k < n * depth ↔ p < n := by
    refine ⟨fun h => ?_, fun h => Raster.index_lt h hk⟩
    refine Nat.lt_of_mul_lt_mul_right (a := depth) ?_
    exact Nat.lt_of_le_of_lt (Nat.le_add_right _ _) h
  rw [interleaved, Array.getD_eq_getD_getElem?, Array.getElem?_ofFn]
  by_cases hp : p < n
  · simp [hlt, hp, Raster.index_div p hk, Raster.index_mod p hk]
  · simp [hlt, hp]

theorem interleaved_one : interleaved n 1 f = Array.ofFn fun p : Fin n => f p 0 := by
  refine Array.ext (by simp [interleaved]) fun i _ _ => ?_
  simp [interleaved, Nat.mod_one]

theorem getD_interleaved_one (hp : p < n) (default : α) :
    (interleaved n 1 f).getD p default = f p 0 := by
  rw [interleaved_one]
  simp [hp]

/-- Pixels one after the other are interleaved. -/
theorem toArray_flatten_pixels : ((List.range n).map fun p =>
    (List.range depth).map (f p)).flatten.toArray = interleaved n depth f := by
  have hpixel (p : Nat) : (List.range depth).map (f p) =
      ((List.range depth).map (p * depth + ·)).map fun i => f (i / depth) (i % depth) := by
    rw [List.map_map]
    refine List.map_congr_left fun k hk => ?_
    have hk := List.mem_range.mp hk
    simp [Raster.index_div p hk, Raster.index_mod p hk]
  rw [← List.flatMap_def, funext hpixel, ← List.map_flatMap, Raster.flatMap_rows]
  refine Array.ext (by simp [interleaved]) fun i _ _ => ?_
  simp [interleaved]

end Interleaved

/-! ### Channelwise scalers -/

namespace PackedScaler

variable {depth c : Nat}

/-- Channel `c` of `n` pixels. -/
def planeOf (depth c n : Nat) (samples : Array UInt8) : Array UInt8 :=
  Array.ofFn fun p : Fin n => samples.getD (p * depth + c) 0

/-- Every channel is scaled as if it were the only one. -/
def ChannelWise (scaler : PackedScaler) : Prop :=
  ∀ (depth width height : Nat) (samples : Array UInt8) (width' height' : Nat),
    samples.size = width * height * depth → ∀ c < depth, ∀ p < width' * height',
      (scaler.scale depth width height samples width' height').getD (p * depth + c) 0 =
        (scaler.scale 1 width height (planeOf depth c (width * height) samples)
          width' height').getD p 0

/-- Pixels of `depth` samples are scaled channel by channel. -/
def SplitsAt (scaler : PackedScaler) (depth : Nat) : Prop :=
  ∀ (width height : Nat) (samples : Array UInt8) (width' height' : Nat),
    samples.size = width * height * depth → ∀ c < depth, ∀ p < width' * height',
      (scaler.scale depth width height samples width' height').getD (p * depth + c) 0 =
        (scaler.scale 1 width height (planeOf depth c (width * height) samples)
          width' height').getD p 0

theorem ChannelWise.splitsAt {scaler : PackedScaler} (h : scaler.ChannelWise) (depth : Nat) :
    scaler.SplitsAt depth :=
  h depth

/-- The only channel there is, is scaled by itself. -/
theorem splitsAt_one (scaler : PackedScaler) : scaler.SplitsAt 1 := by
  intro width height samples width' height' hsize c hc p _
  obtain rfl : c = 0 := Nat.lt_one_iff.mp hc
  have hplane : planeOf 1 0 (width * height) samples = samples := by
    have hsize' : samples.size = width * height := hsize.trans (Nat.mul_one _)
    refine Array.ext (by simp [planeOf, hsize']) fun i _ hi => ?_
    simp [planeOf, Array.getD, hi]
  rw [hplane, Nat.mul_one, Nat.add_zero]

/-- A channel is read off its plane, also past the end. -/
theorem getD_planeOf {n : Nat} {samples : Array UInt8} (hsize : samples.size = n * depth)
    (p : Nat) : (planeOf depth c n samples).getD p 0 = samples.getD (p * depth + c) 0 := by
  by_cases hp : p < n
  · simp [planeOf, Array.getD, hp]
  · have hle : n * depth ≤ p * depth + c :=
      Nat.le_trans (Nat.mul_le_mul_right depth (Nat.not_lt.mp hp)) (Nat.le_add_right _ _)
    have hout : ¬ p * depth + c < samples.size := hsize ▸ Nat.not_lt.mpr hle
    simp [planeOf, Array.getD, hp, hout]

theorem filterColumns_eq (depth width height : Nat) (samples : Array UInt8) (height' : Nat) :
    filterColumns depth width height samples height' =
      interleaved (width * height') depth fun p k =>
        ((Scaler.axis height height').getD (p / width) ⟨0, []⟩).apply fun y =>
          (samples.getD ((y * width + p % width) * depth + k) 0).toFloat32 :=
  rfl

theorem filterRows_eq (depth width : Nat) (samples : Array Float32) (width' height' : Nat) :
    filterRows depth width samples width' height' =
      interleaved (width' * height') depth fun p k =>
        Byte.nearest (((Scaler.axis width width').getD (p % width') ⟨0, []⟩).apply fun x =>
          samples.getD ((p / width' * width + x) * depth + k) 0.0) :=
  rfl

/-- Columns are filtered alike in all channels. -/
theorem getD_filterColumns {width height : Nat} {samples : Array UInt8}
    (hsize : samples.size = width * height * depth) (hc : c < depth) (height' p : Nat) :
    (filterColumns depth width height samples height').getD (p * depth + c) 0.0 =
      (filterColumns 1 width height (planeOf depth c (width * height) samples) height').getD
        (p * 1 + 0) 0.0 := by
  rw [filterColumns_eq, filterColumns_eq, getD_interleaved hc, getD_interleaved Nat.one_pos]
  simp only [Nat.mul_one, Nat.add_zero, getD_planeOf hsize]

/-- **The triangle filter treats all channels alike.** -/
theorem channelWise_triangle : triangle.ChannelWise := by
  intro depth width height samples width' height' hsize c hc p hp
  unfold triangle
  by_cases hsame : width = width' ∧ height = height'
  · have hi : p * depth + c < width' * height' * depth := Raster.index_lt hp hc
    obtain ⟨rfl, rfl⟩ := hsame
    simp [Array.getD_eq_getD_getElem?, hi, hp, planeOf]
  · -- The taps depend on the position `p` alone, and both passes stay in the places of channel `c`.
    simp only [if_neg hsame, filterRows_eq]
    rw [getD_interleaved hc, if_pos hp, getD_interleaved_one hp]
    refine congrArg Byte.nearest (congrArg _ (funext fun x => ?_))
    exact getD_filterColumns hsize hc height' _

/-- On pixels of one sample it is the triangle filter of planes. -/
theorem planes_triangle : triangle.planes = Scaler.triangle := by
  have hcolumns (width height : Nat) (samples : Array UInt8) (height' : Nat) :
      filterColumns 1 width height samples height' =
        Scaler.filterColumns width height samples height' := by
    rw [filterColumns_eq, interleaved_one]
    simp only [Nat.mul_one, Nat.add_zero]
    rfl
  have hrows (width : Nat) (samples : Array Float32) (width' height' : Nat) :
      filterRows 1 width samples width' height' =
        Scaler.filterRows width samples width' height' := by
    rw [filterRows_eq, interleaved_one]
    simp only [Nat.mul_one, Nat.add_zero]
    rfl
  simp only [planes, triangle, Scaler.triangle, hcolumns, hrows, Scaler.mk.injEq]
  funext width height samples width' height'
  split
  · refine Array.ext (by simp) fun i _ _ => ?_
    simp
  · rfl

end PackedScaler

/-! ### Handing pixels over -/

namespace Raster

variable {r : Raster} {scaler : PackedScaler} {first count width height : Nat}

/-- The samples of `count` channels from `first` on, of the pixels in the first `width` columns and
`height` rows. -/
def window (r : Raster) (first count width height : Nat) : Array UInt8 :=
  interleaved (width * height) count fun p k =>
    r.sample (p / width * r.width + p % width) (first + k)

theorem channels?_eq_ok {x y : Nat} (hspan : r.area ≤ Word.span64)
    (hchannels : first + count ≤ r.depth) (hx : x < r.width) (hy : y < r.height) :
    r.channels? first count x y =
      .ok ((List.range count).map fun k => r.sample (y * r.width + x) (first + k)) := by
  rw [channels?, pixel?, slot?_eq_ok hx hy hspan]
  refine mapM_eq_ok fun k hk => ?_
  have hlt : first + k < r.depth :=
    Nat.lt_of_lt_of_le (Nat.add_lt_add_left (List.mem_range.mp hk) first) hchannels
  simp [pixel, hlt]

/-- No pixel that is asked for is missing. -/
theorem gather?_eq_ok (hspan : r.area ≤ Word.span64) (hchannels : first + count ≤ r.depth)
    (hw : width ≤ r.width) (hh : height ≤ r.height) :
    r.gather? first count width height = .ok (r.window first count width height) := by
  have hpixels : ∀ p ∈ List.range (width * height),
      r.channels? first count (p % width) (p / width) = .ok ((List.range count).map fun k =>
        r.sample (p / width * r.width + p % width) (first + k)) := by
    intro p hp
    have hp : p < width * height := List.mem_range.mp hp
    have hpos : 0 < width := Nat.pos_of_mul_pos_right (Nat.zero_lt_of_lt hp)
    exact channels?_eq_ok hspan hchannels (Nat.lt_of_lt_of_le (Nat.mod_lt p hpos) hw)
      (Nat.lt_of_lt_of_le (Nat.div_lt_of_lt_mul hp) hh)
  rw [gather?, mapM_eq_ok hpixels]
  exact congrArg Except.ok toArray_flatten_pixels

/-- A channel of the pixels is the pixels of this channel. -/
theorem planeOf_window {c : Nat} (hc : c < r.depth) :
    PackedScaler.planeOf r.depth c (width * height) (r.window 0 r.depth width height) =
      r.window c 1 width height := by
  rw [window, window, interleaved_one]
  refine Array.ext (by simp [PackedScaler.planeOf]) fun p hp _ => ?_
  simp [PackedScaler.planeOf, getD_interleaved hc]

/-- Channel `c`, scaled by itself. -/
def scaledPlane (r : Raster) (scaler : PackedScaler) (width height c : Nat) : Array UInt8 :=
  scaler.scale 1 (castSide r.width) (castSide r.height)
    (r.window c 1 (castSide r.width) (castSide r.height)) width height

theorem size_scaledPlane (c : Nat) :
    (r.scaledPlane scaler width height c).size = width * height := by
  rw [scaledPlane, scaler.size_scale, Nat.mul_one]

theorem castSide_of_lt {n : Nat} (h : n < Word.span32) : castSide n = n :=
  Nat.mod_eq_of_lt h

theorem castSide_le (n : Nat) : castSide n ≤ n :=
  Nat.mod_le n _

theorem scaleChannels?_eq_ok (hspan : r.area ≤ Word.span64) (hchannels : first + count ≤ r.depth)
    (hw : width < Word.span32) (hh : height < Word.span32) :
    r.scaleChannels? scaler first count width height =
      .ok (scaler.scale count (castSide r.width) (castSide r.height)
        (r.window first count (castSide r.width) (castSide r.height)) width height) := by
  rw [scaleChannels?, castSide_of_lt hw, castSide_of_lt hh]
  show (r.gather? first count (castSide r.width) (castSide r.height) >>= _) = _
  rw [gather?_eq_ok hspan hchannels (castSide_le _) (castSide_le _)]
  rfl

/-! ### All at once, and one after the other -/

/-- A buffer with channels is no shorter than the pixels are many. -/
theorem area_le_size (hdepth : 0 < r.depth) : r.area ≤ r.samples.size :=
  r.size_samples ▸ Nat.le_mul_of_pos_right r.area hdepth

/-- So where a pixel has samples, the pixels of a buffer can be counted. -/
theorem area_le_of_size (hbuffer : r.samples.size ≤ Word.span64) (hdepth : 0 < r.depth) :
    r.area ≤ Word.span64 :=
  Nat.le_trans (area_le_size hdepth) hbuffer

/-- They can be counted wherever the sides fit the words of scalers. -/
theorem area_le_of_sides (hwidth : r.width < Word.span32) (hheight : r.height < Word.span32) :
    r.area ≤ Word.span64 :=
  calc
    r.area ≤ Word.span32 * Word.span32 :=
      Nat.mul_le_mul (Nat.le_of_lt hwidth) (Nat.le_of_lt hheight)
    _ = Word.span64 := rfl

/-- The raster of the scaled planes. -/
def ofScaled (r : Raster) (scaler : PackedScaler) (width height : Nat) : Raster :=
  generate width height r.layout fun p c => (r.scaledPlane scaler width height c).getD p 0

/-- Whatever the scaler makes of the pixels is as long as it should be. -/
theorem exists_scalePixels? (hspan : 0 < r.depth → r.area ≤ Word.span64) (hdepth : 0 < r.depth)
    (hw : width < Word.span32) (hh : height < Word.span32) :
    ∃ out, r.scalePixels? scaler (blank width height r.layout) = .ok out ∧
      out.SameShape (blank width height r.layout) ∧
      out.samples = scaler.scale r.depth (castSide r.width) (castSide r.height)
        (r.window 0 r.depth (castSide r.width) (castSide r.height)) width height := by
  have hscaled := @scaleChannels?_eq_ok r scaler 0 r.depth width height
    (hspan hdepth) (Nat.le_of_eq (Nat.zero_add _)) hw hh
  have hsize := scaler.size_scale r.depth (castSide r.width) (castSide r.height)
    (r.window 0 r.depth (castSide r.width) (castSide r.height)) width height
  rw [scalePixels?]
  show ∃ out, (r.scaleChannels? scaler 0 r.depth width height >>= _) = _ ∧ _
  rw [hscaled]
  show ∃ out, replaceSamples? _ _ = _ ∧ _
  rw [replaceSamples?, dif_pos (hsize.trans (blank width height r.layout).size_eq.symm)]
  exact ⟨_, rfl, ⟨rfl, rfl, rfl⟩, rfl⟩

theorem scalePixels?_eq_ok (hscaler : scaler.SplitsAt r.depth)
    (hspan : 0 < r.depth → r.area ≤ Word.span64) (hdepth : 0 < r.depth) (hw : width < Word.span32)
    (hh : height < Word.span32) : r.scalePixels? scaler (blank width height r.layout) =
      .ok (r.ofScaled scaler width height) := by
  obtain ⟨out, hout, hshape, hsamples⟩ := @exists_scalePixels? r scaler width height hspan hdepth
    hw hh
  rw [hout]
  refine congrArg Except.ok
    (ext_sample hshape.width_eq hshape.height_eq hshape.layout_eq fun p hp c hc => ?_)
  have hp' : p < width * height := Nat.lt_of_lt_of_eq hp hshape.area_eq
  have hdepth_eq : out.depth = r.depth := hshape.depth_eq
  have hc' : c < r.depth := hdepth_eq ▸ hc
  rw [ofScaled, sample_generate hp' hc', scaledPlane, ← planeOf_window hc', sample, hdepth_eq,
    hsamples]
  exact hscaler _ _ _ _ _ (by simp [window, interleaved]) c hc' p hp'

/-- What there is after `c` channels and `i` more samples of the next. -/
def partlyScaled (r : Raster) (scaler : PackedScaler) (width height c i : Nat) : Raster :=
  generate width height r.layout fun p k =>
    if k < c ∨ k = c ∧ p < i then (r.scaledPlane scaler width height k).getD p 0 else 0

theorem partlyScaled_zero :
    r.partlyScaled scaler width height 0 0 = blank width height r.layout := by
  refine ext_sample rfl rfl rfl fun p hp c hc => ?_
  have hp' : p < width * height := hp
  have hc' : c < r.layout.size := hc
  rw [partlyScaled, sample_generate hp' hc', sample_blank, if_neg (by omega)]

theorem partlyScaled_depth :
    r.partlyScaled scaler width height r.depth 0 = r.ofScaled scaler width height := by
  refine generate_congr fun p _ c hc => ?_
  have hc' : c < r.depth := hc
  rw [if_pos (.inl hc')]

/-- A channel is done when all of its samples are. -/
theorem partlyScaled_area (c : Nat) : r.partlyScaled scaler width height c (width * height) =
    r.partlyScaled scaler width height (c + 1) 0 := by
  refine generate_congr fun p hp k _ => ?_
  have hdone : k < c ∨ k = c ∧ p < width * height ↔ k < c + 1 ∨ k = c + 1 ∧ p < 0 := by omega
  simp only [hdone]

theorem setSample?_partlyScaled {c i : Nat} (hc : c < r.depth) (hi : i < width * height) :
    (r.partlyScaled scaler width height c i).setSample? (i * r.depth + c)
        ((r.scaledPlane scaler width height c).getD i 0) =
      .ok (r.partlyScaled scaler width height c (i + 1)) := by
  have hindex : i * r.depth + c < (r.partlyScaled scaler width height c i).samples.size :=
    size_samples _ ▸ index_lt hi hc
  rw [setSample?, Fault.unless_bind_of hindex]
  refine congrArg Except.ok (ext_sample rfl rfl rfl fun p hp k hk => ?_)
  have hp' : p < width * height := hp
  have hk' : k < r.depth := hk
  -- The place that is written belongs to pixel `i` and channel `c` only.
  have hwritten := @sample_withSample (r.partlyScaled scaler width height c i) i c p k hi hc hk'
    ((r.scaledPlane scaler width height c).getD i 0)
  refine hwritten.trans ?_
  rw [partlyScaled, partlyScaled, sample_generate hp' hk', sample_generate hp' hk']
  by_cases hnew : p = i ∧ k = c
  · obtain ⟨rfl, rfl⟩ := hnew
    simp
  · have hold : k < c ∨ k = c ∧ p < i ↔ k < c ∨ k = c ∧ p < i + 1 := by omega
    rw [if_neg hnew]
    simp only [hold]

theorem scalePlane?_eq_ok {c : Nat} (hspan : r.area ≤ Word.span64) (hc : c < r.depth)
    (hw : width < Word.span32) (hh : height < Word.span32) :
    r.scalePlane? scaler (r.partlyScaled scaler width height c 0) c =
      .ok (r.partlyScaled scaler width height (c + 1) 0) := by
  rw [scalePlane?]
  show (r.scaleChannels? scaler c 1 width height >>= _) = _
  rw [scaleChannels?_eq_ok hspan hc hw hh]
  show (List.range (r.scaledPlane scaler width height c).size).foldlM _ _ = _
  rw [size_scaledPlane, ← partlyScaled_area]
  exact foldlM_range_eq_ok (r.partlyScaled scaler width height c) fun i hi =>
    setSample?_partlyScaled hc hi

theorem scalePlanes?_eq_ok (hspan : 0 < r.depth → r.area ≤ Word.span64)
    (hw : width < Word.span32) (hh : height < Word.span32) :
    r.scalePlanes? scaler (blank width height r.layout) =
      .ok (r.ofScaled scaler width height) := by
  rw [scalePlanes?, ← partlyScaled_zero, ← partlyScaled_depth]
  refine foldlM_range_eq_ok (r.partlyScaled scaler width height · 0) fun c hc => ?_
  exact scalePlane?_eq_ok (hspan (Nat.zero_lt_of_lt hc)) hc hw hh

/-- Blank when a side is zero, otherwise the raster of the scaled planes. -/
def resampled (r : Raster) (scaler : PackedScaler) (width height : Nat) : Raster :=
  if r.width = 0 ∨ r.height = 0 ∨ width = 0 ∨ height = 0 then
    blank width height r.layout
  else
    r.ofScaled scaler width height

theorem width_resampled : (r.resampled scaler width height).width = width := by
  unfold resampled; split <;> rfl

theorem height_resampled : (r.resampled scaler width height).height = height := by
  unfold resampled; split <;> rfl

theorem layout_resampled : (r.resampled scaler width height).layout = r.layout := by
  unfold resampled; split <;> rfl

theorem resampled_of_pos (hr : 0 < r.area) (h : 0 < width * height) :
    r.resampled scaler width height = r.ofScaled scaler width height := by
  refine if_neg ?_
  rintro (hside | hside | rfl | rfl)
  · simp [area, hside] at hr
  · simp [area, hside] at hr
  · simp at h
  · simp at h

theorem plane_ofScaled {c : Nat} (hc : c < r.depth) :
    (r.ofScaled scaler width height).plane c = r.scaledPlane scaler width height c := by
  refine Array.ext ?_ fun p hp hp' => ?_
  · rw [size_scaledPlane, plane, Array.size_ofFn]
    rfl
  · have hlt : p < width * height := size_scaledPlane (r := r) c ▸ hp'
    simp only [plane, Array.getElem_ofFn]
    rw [ofScaled, sample_generate hlt hc]
    simp [Array.getD, hp']

/-- Whatever the layout, scaling fails only where its outcome cannot be allocated. -/
theorem resample?_eq (hscaler : scaler.SplitsAt r.depth)
    (hspan : 0 < r.depth → r.area ≤ Word.span64) (hw : width < Word.span32)
    (hh : height < Word.span32) :
    r.resample? scaler width height =
      (checkSize width height r.layout).map fun _ => r.resampled scaler width height := by
  rw [resample?, blank?, resampled]
  cases checkSize width height r.layout with
  | error => rfl
  | ok =>
    show (if _ then _ else _) = Except.ok _
    split
    · rfl
    show (if _ then _ else _) = Except.ok _
    split
    · next hlayout =>
      have hdepth : 0 < r.depth := by
        obtain h | h | h := hlayout <;> simp [depth, h, Layout.gray, Layout.rgb, Layout.rgba]
      exact scalePixels?_eq_ok hscaler hspan hdepth hw hh
    · exact scalePlanes?_eq_ok hspan hw hh

/-- So it does whatever the scaler makes of the pixels. -/
theorem exists_resample?_eq (hspan : 0 < r.depth → r.area ≤ Word.span64)
    (hw : width < Word.span32) (hh : height < Word.span32) :
    ∃ out, r.resample? scaler width height =
      (checkSize width height r.layout).map fun _ => out := by
  rw [resample?, blank?]
  cases checkSize width height r.layout with
  | error => exact ⟨r, rfl⟩
  | ok =>
    simp only [bind, Except.bind, pure, Except.pure, Except.map]
    split
    · exact ⟨_, rfl⟩
    split
    · next hlayout =>
      have hdepth : 0 < r.depth := by
        obtain h | h | h := hlayout <;> simp [depth, h, Layout.gray, Layout.rgb, Layout.rgba]
      obtain ⟨out, hout, -⟩ := @exists_scalePixels? r scaler width height hspan hdepth hw hh
      exact ⟨out, hout⟩
    · exact ⟨_, scalePlanes?_eq_ok hspan hw hh⟩

/-! ### Shapes -/

theorem sameShape_of_setSample? {out out' : Raster} {i : Nat} {v : UInt8}
    (h : out.setSample? i v = .ok out') : out'.SameShape out := by
  obtain ⟨-, h⟩ := Fault.unless_bind_eq_ok_iff.mp h
  cases h
  exact ⟨rfl, rfl, rfl⟩

theorem sameShape_of_replaceSamples? {out out' : Raster} {samples : Array UInt8}
    (h : out.replaceSamples? samples = .ok out') : out'.SameShape out := by
  unfold replaceSamples? at h
  split at h
  · cases h
    exact ⟨rfl, rfl, rfl⟩
  · cases h

/-- Whatever the scaler does, the outcome has the wanted sides and the channels of the raster. -/
theorem sameShape_of_resample? {out : Raster} (h : r.resample? scaler width height = .ok out) :
    out.SameShape (blank width height r.layout) := by
  obtain ⟨first, hfirst, h⟩ := bind_eq_ok_iff.mp h
  obtain ⟨-, -, hfirst⟩ := bind_eq_ok_iff.mp hfirst
  cases hfirst
  split at h
  · cases h
    exact .refl _
  split at h
  · obtain ⟨scaled, -, h⟩ := bind_eq_ok_iff.mp h
    exact sameShape_of_replaceSamples? h
  · refine foldlM_preserves (P := (·.SameShape (blank width height r.layout))) ?_ (.refl _) h
    intro out out' c hout hplane
    obtain ⟨scaled, -, hplane⟩ := bind_eq_ok_iff.mp hplane
    refine foldlM_preserves (P := (·.SameShape (blank width height r.layout))) ?_ hout hplane
    exact fun hout hset => (sameShape_of_setSample? hset).trans hout

/-! ### Other channels -/

/-- The raster with other channels, of which channel `k` has the samples of channel `source k`. -/
def rearranged (r : Raster) (layout : Layout) (source : Nat → Nat) : Raster :=
  generate r.width r.height layout fun p k => r.sample p (source k)

variable {layout : Layout} {source : Nat → Nat}

theorem channelRaster_eq (c : Nat) : r.channelRaster c = r.rearranged .gray fun _ => c := by
  refine ext_samples rfl rfl rfl (Array.ext ?_ fun p _ _ => ?_)
  · simp [channelRaster, plane, rearranged, generate, area, Layout.gray]
  · simp [channelRaster, plane, rearranged, generate, Layout.gray]

/-- It makes no difference to a channel of what raster it is the channel. -/
theorem window_rearranged {k : Nat} (hk : k < layout.size) (hw : width ≤ r.width)
    (hh : height ≤ r.height) : (r.rearranged layout source).window k 1 width height =
      r.window (source k) 1 width height := by
  rw [window, window, interleaved_one, interleaved_one]
  refine congrArg Array.ofFn (funext fun p => ?_)
  have hpos : 0 < width := Nat.pos_of_mul_pos_right (Nat.zero_lt_of_lt p.isLt)
  have hcell : p / width * r.width + p % width < r.width * r.height :=
    cell_lt_area (Nat.lt_of_lt_of_le (Nat.mod_lt _ hpos) hw)
      (Nat.lt_of_lt_of_le (Nat.div_lt_of_lt_mul p.isLt) hh)
  exact sample_generate hcell hk

theorem scaledPlane_rearranged {k : Nat} (hk : k < layout.size) :
    (r.rearranged layout source).scaledPlane scaler width height k =
      r.scaledPlane scaler width height (source k) :=
  congrArg (scaler.scale 1 (castSide r.width) (castSide r.height) · width height)
    (window_rearranged hk (castSide_le _) (castSide_le _))

/-- Scaling and rearranging channels commute. -/
theorem resampled_rearranged (hsource : ∀ k < layout.size, source k < r.depth) :
    (r.rearranged layout source).resampled scaler width height =
      (r.resampled scaler width height).rearranged layout source := by
  unfold resampled
  by_cases hside : r.width = 0 ∨ r.height = 0 ∨ width = 0 ∨ height = 0
  · have hside' : (r.rearranged layout source).width = 0 ∨
        (r.rearranged layout source).height = 0 ∨ width = 0 ∨ height = 0 := hside
    rw [if_pos hside, if_pos hside']
    refine ext_sample rfl rfl rfl fun p hp k hk => ?_
    have hp' : p < width * height := hp
    have hk' : k < layout.size := hk
    rw [sample_blank, rearranged]
    exact ((sample_generate hp' hk').trans (sample_blank width height r.layout p (source k))).symm
  · have hside' : ¬ ((r.rearranged layout source).width = 0 ∨
        (r.rearranged layout source).height = 0 ∨ width = 0 ∨ height = 0) := hside
    rw [if_neg hside, if_neg hside']
    refine generate_congr fun p hp k hk => ?_
    have hk' : k < layout.size := hk
    rw [scaledPlane_rearranged hk', ofScaled, sample_generate hp (hsource k hk')]

/-! ### Channels alike -/

/-- `out` is `r` at the size `width × height`: the channels are those of `r`, and every one is
scaled as if it were the only one. -/
structure ScaledAlike (r : Raster) (scaler : PackedScaler) (width height : Nat) (out : Raster) :
    Prop where
  width_eq : out.width = width
  height_eq : out.height = height
  layout_eq : out.layout = r.layout
  size_eq : out.samples.size = width * height * r.depth
  blank_of_side : r.width = 0 ∨ r.height = 0 ∨ width = 0 ∨ height = 0 →
    out = blank width height r.layout
  channel : ∀ c < r.depth,
    (r.channelRaster c).resample? scaler width height = .ok (out.channelRaster c)
  /-- Channels can be dropped, renamed and brought into another order before or after. -/
  rearranged : ∀ (layout : Layout) (source : Nat → Nat), layout.size ≤ r.depth →
    (∀ k < layout.size, source k < r.depth) →
      (r.rearranged layout source).resample? scaler width height =
        .ok (out.rearranged layout source)
  plane_eq : 0 < r.area → 0 < width * height → ∀ c < r.depth,
    out.plane c = r.scaledPlane scaler width height c
  /-- Pixels can be handed over in both ways, whatever the layout. -/
  paths : 0 < r.area → 0 < width * height →
    r.scalePlanes? scaler (blank width height r.layout) = .ok out ∧
      (0 < r.depth → r.scalePixels? scaler (blank width height r.layout) = .ok out)

/-- With fewer channels a raster can be allocated as well. -/
theorem checkSize_of_le (hsize : layout.size ≤ r.depth)
    (h : checkSize width height r.layout = .ok ()) : checkSize width height layout = .ok () := by
  obtain ⟨harea, hspan⟩ := Fault.unless_eq_ok_iff.mp h
  exact Fault.unless_of ⟨harea, Nat.lt_of_le_of_lt (Nat.mul_le_mul_left _ hsize) hspan⟩

theorem resample?_rearranged (hscaler : scaler.ChannelWise)
    (hbuffer : r.samples.size ≤ Word.span64) (hw : width < Word.span32)
    (hh : height < Word.span32) (hcheck : checkSize width height r.layout = .ok ())
    (hsize : layout.size ≤ r.depth) (hsource : ∀ k < layout.size, source k < r.depth) :
    (r.rearranged layout source).resample? scaler width height =
      .ok ((r.resampled scaler width height).rearranged layout source) := by
  have hbuffer' : (r.rearranged layout source).samples.size ≤ Word.span64 := by
    refine Nat.le_trans ?_ hbuffer
    rw [size_samples, size_samples]
    exact Nat.mul_le_mul_left r.area hsize
  rw [resample?_eq (hscaler.splitsAt _) (area_le_of_size hbuffer') hw hh,
    resampled_rearranged hsource]
  show (checkSize width height layout).map _ = _
  rw [checkSize_of_le hsize hcheck]
  rfl

/-- **Channels are scaled alike.**  With a channelwise scaler a raster is brought to any size of
which a raster can be allocated, and on every way the outcome is the same: each channel as if it
were the only one.  Of the raster it is only asked that its buffer can be addressed; its sides need
not fit the words of the scaler. -/
theorem resample?_alike (hscaler : scaler.ChannelWise) (hbuffer : r.samples.size ≤ Word.span64)
    (hw : width < Word.span32) (hh : height < Word.span32) :
    ((∃ out, r.resample? scaler width height = .ok out) ↔
      checkSize width height r.layout = .ok ()) ∧
    ∀ out, r.resample? scaler width height = .ok out → r.ScaledAlike scaler width height out := by
  have hspan := area_le_of_size hbuffer
  rw [resample?_eq (hscaler.splitsAt _) hspan hw hh]
  cases hcheck : checkSize width height r.layout with
  | error => exact ⟨iff_of_false nofun nofun, nofun⟩
  | ok =>
    refine ⟨iff_of_true ⟨_, rfl⟩ rfl, fun out hout => ?_⟩
    obtain rfl : r.resampled scaler width height = out := Except.ok.inj hout
    have hrearranged := @resample?_rearranged r scaler width height
    exact {
      width_eq := width_resampled
      height_eq := height_resampled
      layout_eq := layout_resampled
      size_eq := by rw [size_eq, width_resampled, height_resampled, layout_resampled, depth]
      blank_of_side := fun hside => if_pos hside
      channel := fun c hc => by
        rw [channelRaster_eq, channelRaster_eq]
        exact hrearranged hscaler hbuffer hw hh hcheck (Nat.zero_lt_of_lt hc) fun _ _ => hc
      rearranged := fun layout source hsize hsource =>
        hrearranged hscaler hbuffer hw hh hcheck hsize hsource
      plane_eq := fun hr h c hc => by rw [resampled_of_pos hr h, plane_ofScaled hc]
      paths := fun hr h => by
        rw [resampled_of_pos hr h]
        exact ⟨scalePlanes?_eq_ok hspan hw hh,
          fun hdepth => scalePixels?_eq_ok (hscaler.splitsAt _) hspan hdepth hw hh⟩ }

/-- Two pixels in a layout without a way of its own. -/
def veiledRaster : Raster where
  width := 2
  height := 1
  layout := #[.alpha, .color]
  samples := #[10, 0, 10, 200]
  size_eq := rfl

theorem resample?_alike_veiled :
    PackedScaler.triangle.ChannelWise ∧ veiledRaster.samples.size ≤ Word.span64 ∧
    4 < Word.span32 ∧ 2 < Word.span32 ∧
    ∃ out, veiledRaster.resample? .triangle 4 2 = .ok out ∧ out.layout = #[.alpha, .color] ∧
      (veiledRaster.channelRaster 1).resample? .triangle 4 2 = .ok (out.channelRaster 1) ∧
      veiledRaster.scalePixels? .triangle (blank 4 2 #[.alpha, .color]) = .ok out := by
  have hbuffer : veiledRaster.samples.size ≤ Word.span64 := by decide
  have halike := @resample?_alike veiledRaster .triangle 4 2 PackedScaler.channelWise_triangle
    hbuffer (by decide) (by decide)
  obtain ⟨out, hout⟩ := halike.1.mpr (Fault.unless_of (by decide))
  have hscaled := halike.2 out hout
  refine ⟨PackedScaler.channelWise_triangle, hbuffer, by decide, by decide, out, hout,
    hscaled.layout_eq, hscaled.channel 1 (by decide), ?_⟩
  exact (hscaled.paths (by decide) (by decide)).2 (by decide)

/-! ### The scaling of planes -/

/-- Of sides that fit their words the pixels are all handed over. -/
theorem window_eq_plane (c : Nat) : r.window c 1 r.width r.height = r.plane c := by
  rw [window, interleaved_one]
  refine congrArg Array.ofFn (funext fun p => ?_)
  rw [Nat.add_zero, Nat.mul_comm, Nat.div_add_mod]

/-- For sides that fit their words, pixels and planes are scaled alike. -/
theorem resample?_eq_scaleTo? (hscaler : scaler.SplitsAt r.depth)
    (hwidth : r.width < Word.span32) (hheight : r.height < Word.span32) (hw : width < Word.span32)
    (hh : height < Word.span32) :
    r.resample? scaler width height = r.scaleTo? scaler.planes width height := by
  have hplane (c : Nat) : r.scaledPlane scaler width height c =
      scaler.planes.scale r.width r.height (r.plane c) width height := by
    rw [scaledPlane, castSide_of_lt hwidth, castSide_of_lt hheight, window_eq_plane]
    rfl
  have hscaled : r.resampled scaler width height = r.scaleTo scaler.planes width height := by
    unfold resampled scaleTo
    split
    · rfl
    · refine generate_congr fun p _ c hc => ?_
      have hc' : c < r.depth := hc
      simp [hplane, hc']
  rw [resample?_eq hscaler (fun _ => area_le_of_sides hwidth hheight) hw hh, hscaled, scaleTo?]
  cases checkSize width height r.layout <;> rfl

theorem resample?_triangle (hwidth : r.width < Word.span32) (hheight : r.height < Word.span32)
    (hw : width < Word.span32) (hh : height < Word.span32) :
    r.resample? .triangle width height = r.scaleTo? .triangle width height := by
  rw [← PackedScaler.planes_triangle]
  exact resample?_eq_scaleTo? (PackedScaler.channelWise_triangle.splitsAt _) hwidth hheight hw hh

end Raster

end Retouch
