import Retouch.Proofs.Canvas.Loaded

/-!
# Retouch — Canvas — Known pixels, one by one

A canvas takes known pixels from another in a loop over rows and columns (`LoadedCanvas.restore?`);
a run builds the outcome at once (`Canvas.restore?`).  The two come to the same, faults included
(`LoadedCanvas.restore?_loaded`): after `n` cells the loop has come to the canvas in which the first
`n` cells are restored (`Canvas.restoredTo`), and where the channels do not match, it ends at the
first known pixel.  What the known canvas has behind its last pixel is not read.
-/

namespace Retouch

/-- A loop of which every step stays or fails. -/
theorem foldlM_guard {α β ε : Type} {f : β → α → Except ε β} {b : β} {e : ε} {stays : α → Bool}
    {l : List α} (h : ∀ a ∈ l, f b a = if stays a then .ok b else .error e) :
    l.foldlM f b = if l.all stays then .ok b else .error e := by
  induction l with
  | nil => rfl
  | cons a l ih =>
    obtain ⟨ha, hl⟩ := List.forall_mem_cons.mp h
    rw [List.foldlM_cons, ha, List.all_cons]
    cases stays a
    · rfl
    · exact ih hl

/-! ### One cell after the other -/

namespace Canvas

variable {c known : Canvas}

/-- The canvas with the known pixels among the first `n` cells. -/
def restoredTo (c known : Canvas) (n : Nat) : Canvas :=
  c.withImage <| .generate c.width c.height c.layout fun p k =>
    if known.isHole p ∨ n ≤ p then c.image.sample p k else known.image.sample p k

theorem sample_restoredTo {n p k : Nat} (hp : p < c.area) (hk : k < c.depth) :
    (c.restoredTo known n).image.sample p k =
      if known.isHole p ∨ n ≤ p then c.image.sample p k else known.image.sample p k :=
  Raster.sample_generate hp hk

/-- As long as there are none of them, nothing has changed. -/
theorem restoredTo_eq_self {n : Nat} (h : ∀ p < c.area, known.isHole p ∨ n ≤ p) :
    c.restoredTo known n = c := by
  have himage : (c.restoredTo known n).image = c.image := by
    refine Raster.ext_sample rfl rfl rfl fun p hp k hk => ?_
    have hp' : p < c.area := hp
    have hk' : k < c.depth := hk
    rw [sample_restoredTo hp' hk', if_pos (h p hp')]
  exact congrArg c.withImage himage

/-- In the end all of them are there. -/
theorem restoredTo_area : c.restoredTo known c.area = c.restore known := by
  refine congrArg c.withImage (Raster.generate_congr fun p hp k _ => ?_)
  have hp' : ¬ c.area ≤ p := Nat.not_le.mpr hp
  simp only [hp', or_false]

/-- A hole adds nothing. -/
theorem restoredTo_succ_of_isHole {n : Nat} (h : known.isHole n = true) :
    c.restoredTo known (n + 1) = c.restoredTo known n := by
  refine congrArg c.withImage (Raster.generate_congr fun p _ k _ => ?_)
  rcases Nat.lt_trichotomy p n with hp | rfl | hp
  · simp [Nat.not_le.mpr hp, Nat.not_le.mpr (Nat.lt_succ_of_lt hp)]
  · simp [h]
  · simp [Nat.le_of_lt hp, Nat.succ_le_of_lt hp]

/-- Otherwise one more pixel is taken from there. -/
theorem restoredTo_succ {n : Nat} (hdepth : c.depth = known.depth) (hn : n < c.area)
    (h : known.isHole n = false) : c.restoredTo known (n + 1) =
      (c.restoredTo known n).withImage
        ((c.restoredTo known n).image.withPixel n (known.image.pixel n)) := by
  have hlength : (known.image.pixel n).length = (c.restoredTo known n).image.depth :=
    (known.image.length_pixel n).trans hdepth.symm
  have himage : (c.restoredTo known (n + 1)).image =
      (c.restoredTo known n).image.withPixel n (known.image.pixel n) := by
    refine Raster.ext_sample rfl rfl rfl fun p hp k hk => ?_
    have hp' : p < c.area := hp
    have hk' : k < c.depth := hk
    have hknown : k < known.image.depth := Nat.lt_of_lt_of_eq hk' hdepth
    have hn' : n < (c.restoredTo known n).image.area := hn
    have hwritten := Raster.sample_withPixel hn' hlength (q := p) hk
    rw [hwritten, sample_restoredTo hp' hk', sample_restoredTo hp' hk']
    rcases Nat.lt_trichotomy p n with hlt | rfl | hlt
    · simp [Nat.ne_of_lt hlt, Nat.not_le.mpr hlt, Nat.not_le.mpr (Nat.lt_succ_of_lt hlt)]
    · simp [h, Raster.pixel, hknown, Nat.not_succ_le_self p]
    · simp [Nat.ne_of_gt hlt, Nat.le_of_lt hlt, Nat.succ_le_of_lt hlt]
  exact congrArg c.withImage himage

end Canvas

namespace LoadedCanvas

variable {d : Canvas} {known : LoadedCanvas} {x y : Nat}

/-- With nothing behind the last pixel, pixels are replaced as in the plain canvas. -/
theorem setPixel?_loaded (d : Canvas) (x y : Nat) (bytes : List UInt8) :
    d.loaded.setPixel? x y bytes = (d.setPixel? x y bytes).map Canvas.loaded := by
  have hslot : d.loaded.slot? x y = d.image.slot? x y := rfl
  have hslot' : (Loaded.ofRaster d.image).slot? x y = d.image.slot? x y := by
    rw [Loaded.slot?, Loaded.samples_ofRaster]
    rfl
  have hdepth : d.loaded.depth = d.image.depth := rfl
  have hdepth' : (Loaded.ofRaster d.image).depth = d.image.depth := rfl
  have himage : d.loaded.image = .ofRaster d.image := rfl
  simp only [setPixel?, Canvas.setPixel?, Raster.setPixel?, Loaded.setPixel?, hslot, hdepth, himage,
    hslot', hdepth']
  cases d.image.slot? x y with
  | error => rfl
  | ok p =>
    by_cases hbytes : bytes.length = d.image.depth
    · -- As many bytes as channels: none is cut off.
      have htake : bytes.take d.image.depth = bytes := List.take_of_length_le (Nat.le_of_eq hbytes)
      have hpixels : Raster.overwrite d.image.samples (p * d.image.depth) bytes =
          (d.image.withPixel p bytes).samples :=
        congrArg (Raster.overwrite d.image.samples (p * d.image.depth)) htake.symm
      have hwritten : Raster.overwrite (Loaded.ofRaster d.image).samples (p * d.image.depth) bytes =
          (d.image.withPixel p bytes).samples := by rw [Loaded.samples_ofRaster, hpixels]
      simp only [Fault.unless_of hbytes]
      refine congrArg Except.ok ?_
      show LoadedCanvas.mk _ _ _ _ = LoadedCanvas.mk _ _ _ _
      rw [LoadedCanvas.mk.injEq]
      have hshape : (d.image.withPixel p bytes).SameShape d.image := ⟨rfl, rfl, rfl⟩
      exact ⟨Loaded.withSamples_ofRaster hshape hwritten _, rfl, hpixels, rfl⟩
    · simp only [Fault.unless_of_not hbytes]
      rfl

/-! ### What is read of the known canvas -/

/-- There is a flag for every cell. -/
theorem Copied.area_le_size_holes (h : known.Copied) : known.canvas.area ≤ known.holes.size := by
  rw [h.holes_eq, Array.size_map, Loaded.size_wholeRows, ← h.size_mask]
  exact known.mask.size_raster_le

/-- The copy of a pixel is the pixel. -/
theorem Copied.pixel?_eq_ok (h : known.Copied) (hspan : known.canvas.area ≤ Word.span64)
    (hx : x < known.width) (hy : y < known.height) :
    known.pixel? x y = .ok (known.image.raster.pixel (y * known.width + x)) := by
  have hp : y * known.width + x < known.image.raster.area := Raster.cell_lt_area hx hy
  have hsize : known.image.raster.samples.size ≤ known.pixels.size := by
    rw [h.pixels_eq, Loaded.size_wholeRows]
    exact known.image.size_raster_le
  have hrow : (y * known.width + x + 1) * known.depth ≤ known.pixels.size :=
    Nat.le_trans (known.image.raster.size_samples ▸ Nat.mul_le_mul_right _ hp) hsize
  have hslot : known.slot? x y = .ok (y * known.width + x) := by
    rw [slot?, Fault.unless_of ⟨Nat.lt_of_lt_of_le hp hspan, hrow⟩]
    rfl
  rw [pixel?, hslot]
  refine congrArg Except.ok (List.map_congr_left fun k hk => ?_)
  have hk : k < known.image.raster.depth := List.mem_range.mp hk
  rw [h.pixels_eq]
  exact Loaded.getD_wholeRows (known.image.raster.size_samples ▸ Raster.index_lt hp hk)

/-- What a step of the loop reads: the flag and, if there is one, the known pixel. -/
theorem restorePixel?_eq (hknown : known.Copied) (hspan : known.canvas.area ≤ Word.span64)
    (hx : x < known.width) (hy : y < known.height) (c : LoadedCanvas) :
    restorePixel? known y c x =
      if known.canvas.isHole (y * known.width + x) then .ok c
      else c.setPixel? x y (known.image.raster.pixel (y * known.width + x)) := by
  have hcell : y * known.width + x < known.holes.size :=
    Nat.lt_of_lt_of_le (Raster.cell_lt_area hx hy) hknown.area_le_size_holes
  have hflag : known.isHole? x y = .ok (known.canvas.isHole (y * known.width + x)) := by
    rw [isHole?, flag?, Fault.unless_of hcell]
    rfl
  rw [restorePixel?, hflag, hknown.pixel?_eq_ok hspan hx hy]
  cases known.canvas.isHole (y * known.width + x) <;> rfl

/-! ### The loop -/

/-- Where the channels match, a step restores the next cell. -/
theorem restorePixel?_restoredTo (hknown : known.Copied) (hw : d.width = known.width)
    (hh : d.height = known.height) (hspan : d.area ≤ Word.span64) (hdepth : d.depth = known.depth)
    (hx : x < d.width) (hy : y < d.height) :
    restorePixel? known y (d.restoredTo known.canvas (y * d.width + x)).loaded x =
      .ok (d.restoredTo known.canvas (y * d.width + x + 1)).loaded := by
  have harea : d.area = known.canvas.area := congrArg₂ (· * ·) hw hh
  rw [restorePixel?_eq hknown (harea ▸ hspan) (hw ▸ hx) (hh ▸ hy), ← hw]
  cases hhole : known.canvas.isHole (y * d.width + x) with
  | true => rw [Canvas.restoredTo_succ_of_isHole hhole, if_pos rfl]
  | false =>
    have hn : y * d.width + x < d.area := Raster.cell_lt_area hx hy
    have hslot : (d.restoredTo known.canvas (y * d.width + x)).image.slot? x y =
        .ok (y * d.width + x) := Raster.slot?_eq_ok hx hy hspan
    have hlength : (known.image.raster.pixel (y * d.width + x)).length =
        (d.restoredTo known.canvas (y * d.width + x)).image.depth :=
      (known.image.raster.length_pixel _).trans hdepth.symm
    have hdepth' : d.depth = known.canvas.depth := hdepth
    rw [if_neg Bool.false_ne_true, setPixel?_loaded, Canvas.setPixel?, Raster.setPixel?, hslot,
      Canvas.restoredTo_succ hdepth' hn hhole]
    simp only [bind, Except.bind, Fault.unless_of hlength]
    rfl

/-- Where they do not, it ends at a known pixel. -/
theorem restorePixel?_of_depth_ne (hknown : known.Copied) (hw : d.width = known.width)
    (hh : d.height = known.height) (hspan : d.area ≤ Word.span64) (hdepth : d.depth ≠ known.depth)
    (hx : x < d.width) (hy : y < d.height) :
    restorePixel? known y d.loaded x =
      if known.canvas.isHole (y * d.width + x) then .ok d.loaded else .error .sizeMismatch := by
  have harea : d.area = known.canvas.area := congrArg₂ (· * ·) hw hh
  have hset : d.loaded.setPixel? x y (known.image.raster.pixel (y * d.width + x)) =
      .error .sizeMismatch := by
    have hlength : ¬ (known.image.raster.pixel (y * d.width + x)).length = d.image.depth := by
      rw [Raster.length_pixel]
      exact Ne.symm hdepth
    rw [setPixel?_loaded, Canvas.setPixel?, Raster.setPixel?, Raster.slot?_eq_ok hx hy hspan]
    simp only [bind, Except.bind, Fault.unless_of_not hlength]
    rfl
  rw [restorePixel?_eq hknown (harea ▸ hspan) (hw ▸ hx) (hh ▸ hy), ← hw, hset]

theorem foldlM_restoredTo (hknown : known.Copied) (hw : d.width = known.width)
    (hh : d.height = known.height) (hspan : d.area ≤ Word.span64)
    (hdepth : d.depth = known.depth) :
    (List.range d.height).foldlM (fun c y =>
      (List.range c.width).foldlM (restorePixel? known y) c) d.loaded =
        .ok (d.restore known.canvas).loaded := by
  -- After `y` rows, the cells before `y * d.width` are restored.
  let state (n : Nat) : LoadedCanvas := (d.restoredTo known.canvas n).loaded
  have hrow (y : Nat) (hy : y < d.height) :
      (List.range d.width).foldlM (restorePixel? known y) (state (y * d.width)) =
        .ok (state ((y + 1) * d.width)) := by
    rw [Nat.succ_mul]
    exact foldlM_range_eq_ok (fun x => state (y * d.width + x)) fun x hx =>
      restorePixel?_restoredTo hknown hw hh hspan hdepth hx hy
  have hfirst : state (0 * d.width) = d.loaded := by
    rw [Nat.zero_mul]
    exact congrArg Canvas.loaded (Canvas.restoredTo_eq_self fun p _ => .inr (Nat.zero_le p))
  have hlast : state (d.height * d.width) = (d.restore known.canvas).loaded := by
    rw [Nat.mul_comm]
    exact congrArg Canvas.loaded Canvas.restoredTo_area
  rw [← hfirst, ← hlast]
  exact foldlM_range_eq_ok (fun y => state (y * d.width)) hrow

theorem foldlM_of_depth_ne (hknown : known.Copied) (hw : d.width = known.width)
    (hh : d.height = known.height) (hspan : d.area ≤ Word.span64)
    (hdepth : d.depth ≠ known.depth) :
    (List.range d.height).foldlM (fun c y =>
      (List.range c.width).foldlM (restorePixel? known y) c) d.loaded =
        (do
          Fault.sizeMismatch.unless
            (d.depth = known.depth ∨ (List.range known.canvas.area).all known.canvas.isHole)
          return d.restore known.canvas : Except Fault Canvas).map Canvas.loaded := by
  have hcells : (List.range known.canvas.area).all known.canvas.isHole =
      (List.range d.height).all fun y =>
        (List.range d.width).all fun x => known.canvas.isHole (y * d.width + x) := by
    have harea : known.canvas.area = d.height * d.width := by
      rw [Nat.mul_comm]
      exact congrArg₂ (· * ·) hw.symm hh.symm
    rw [harea, ← Raster.flatMap_rows, List.all_flatMap]
    simp only [List.all_map, Function.comp_def]
  have hrow : ∀ y ∈ List.range d.height,
      (List.range d.loaded.width).foldlM (restorePixel? known y) d.loaded =
        if (List.range d.width).all (fun x => known.canvas.isHole (y * d.width + x)) then
          .ok d.loaded
        else .error .sizeMismatch := fun y hy =>
    foldlM_guard fun x hx => restorePixel?_of_depth_ne hknown hw hh hspan hdepth
      (List.mem_range.mp hx) (List.mem_range.mp hy)
  rw [foldlM_guard hrow, ← hcells]
  by_cases hall : (List.range known.canvas.area).all known.canvas.isHole = true
  · have hself : d.restore known.canvas = d := by
      rw [← Canvas.restoredTo_area]
      refine Canvas.restoredTo_eq_self fun p hp => .inl ?_
      have harea : d.area = known.canvas.area := congrArg₂ (· * ·) hw hh
      exact List.all_eq_true.mp hall p (List.mem_range.mpr (harea ▸ hp))
    rw [if_pos hall, Fault.unless_of (.inr hall), hself]
    rfl
  · rw [if_neg hall, Fault.unless_of_not (not_or.mpr ⟨hdepth, hall⟩)]
    rfl

/-- **The loop restores the canvas.**  Where known pixels go into a canvas that can be addressed and
has nothing behind its last pixel, taking them one by one ends as taking them all at once does. -/
theorem restore?_loaded (hknown : known.Copied) (hspan : d.area ≤ Word.span64) :
    d.loaded.restore? known = (d.restore? known.canvas).map Canvas.loaded := by
  have hw : known.canvas.width = known.width := rfl
  have hh : known.canvas.height = known.height := rfl
  have hw' : d.loaded.width = d.width := rfl
  have hh' : d.loaded.height = d.height := rfl
  rw [restore?, Canvas.restore?, hw, hh, hw', hh']
  by_cases hsides : d.width = known.width ∧ d.height = known.height
  · obtain ⟨hw, hh⟩ := hsides
    rw [Fault.unless_of ⟨hw, hh⟩]
    by_cases hdepth : d.depth = known.depth
    · rw [Fault.unless_of (.inl hdepth)]
      exact foldlM_restoredTo hknown hw hh hspan hdepth
    · exact foldlM_of_depth_ne hknown hw hh hspan hdepth
  · rw [Fault.unless_of_not hsides]
    rfl

end LoadedCanvas

end Retouch
