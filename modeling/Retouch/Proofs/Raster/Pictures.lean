import Mathlib.Tactic.SplitIfs
import Retouch.Number.Word
import Retouch.Raster.Picture

/-!
# Retouch — Raster — Pictures and back

A picture is *plain* when it is in bytes and gray, coloured, or coloured with opacity
(`Picture.IsPlain`): then its samples are kept as they are.  A plain picture is loaded and turned
into the same picture again, with its whole buffer (`Picture.toPicture_of_load?`).

The other way round, a raster becomes a picture exactly when its layout is one of these three
(`Loaded.toPicture_eq_error_iff`), whatever its sides are.  The sides of the picture are the
remainders that fit 32 bits, and its buffer is that of the raster, which is long enough because
remainders are not larger.  So the way there and back ends with the same raster exactly when both
sides fit (`Loaded.load?_eq_iff`); `wideRaster` has no samples and a side that does not.
-/

namespace Retouch

/-! ### Plain pictures -/

namespace Picture

/-- In bytes, and gray, coloured, or coloured with opacity. -/
structure IsPlain (picture : Picture) : Prop where
  exists_bytes : ∃ data, picture.store = .bytes data
  rgb_of_alpha : picture.hasAlpha = true → picture.model = .rgb

/-- The samples of a buffer that has at least as many as the sides and the layout ask for. -/
theorem samples_generate {width height : Nat} {layout : Layout} {data : Array UInt8}
    (h : width * height * layout.size ≤ data.size) :
    (Raster.generate width height layout fun p c => data.getD (p * layout.size + c) 0).samples =
      data.extract 0 (width * height * layout.size) := by
  refine Array.ext (by simp [Raster.generate, h]) fun i hi _ => ?_
  have hi' : i < width * height * layout.size := by simpa [Raster.generate] using hi
  have hindex : i / layout.size * layout.size + i % layout.size = i := by
    rw [Nat.mul_comm]
    exact Nat.div_add_mod i layout.size
  have hlt : i < data.size := Nat.lt_of_lt_of_le hi' h
  simp [Raster.generate, hindex, hlt, Array.getD]

variable {picture : Picture} {data : Array UInt8}

theorem IsPlain.size_plainLayout (h : picture.IsPlain) :
    picture.plainLayout.size = picture.channels := by
  obtain ⟨width, height, model, hasAlpha, store, size_le⟩ := picture
  cases model with
  | rgb => cases hasAlpha <;> rfl
  | gray =>
    cases hasAlpha with
    | false => rfl
    | true => cases h.rgb_of_alpha rfl

theorem IsPlain.load?_eq (h : picture.IsPlain) (hdata : picture.store = .bytes data) :
    picture.load? = .ok ⟨picture.plain data, data.extract picture.count data.size⟩ := by
  obtain ⟨width, height, model, hasAlpha, store, size_le⟩ := picture
  obtain rfl : store = .bytes data := hdata
  cases model with
  | rgb => cases hasAlpha <;> rfl
  | gray =>
    cases hasAlpha with
    | false => rfl
    | true => cases h.rgb_of_alpha rfl

theorem IsPlain.samples_plain (h : picture.IsPlain) (hdata : picture.store = .bytes data) :
    (picture.plain data).samples = data.extract 0 picture.count := by
  have hsize : picture.count ≤ data.size := by
    have := picture.size_le
    rwa [hdata] at this
  rw [count, ← h.size_plainLayout] at hsize ⊢
  rw [plain, ← h.size_plainLayout]
  exact samples_generate hsize

end Picture

/-! ### Rasters as pictures -/

namespace Loaded

variable {layout : Layout} {l : Loaded} {p : Picture}

/-- The layouts of plain pictures. -/
def IsPictured (layout : Layout) : Prop :=
  layout = .gray ∨ layout = .rgb ∨ layout = .rgba

theorem kind?_eq_none_iff : kind? layout = none ↔ ¬ IsPictured layout := by
  unfold kind? IsPictured
  split_ifs <;> simp_all

/-- The picture shows what was loaded: it has the layout and the whole buffer, and of the sides what
fits 32 bits. -/
structure ShownBy (l : Loaded) (p : Picture) : Prop where
  plain : p.IsPlain
  width_eq : p.width.toNat = l.raster.width % Word.span32
  height_eq : p.height.toNat = l.raster.height % Word.span32
  layout_eq : p.plainLayout = l.raster.layout
  store_eq : p.store = .bytes (l.raster.samples ++ l.spare)

theorem toNat_ofNat (n : Nat) : (UInt32.ofNat n).toNat = n % Word.span32 :=
  UInt32.toNat_ofNat'

/-- The buffer is long enough, since what fits of the sides is not larger than they are. -/
theorem size_le (l : Loaded) :
    (UInt32.ofNat l.raster.width).toNat * (UInt32.ofNat l.raster.height).toNat *
      l.raster.layout.size ≤ (l.raster.samples ++ l.spare).size := by
  rw [toNat_ofNat, toNat_ofNat, Array.size_append, l.raster.size_eq]
  refine Nat.le_trans (Nat.mul_le_mul_right _ ?_) (Nat.le_add_right _ _)
  exact Nat.mul_le_mul (Nat.mod_le _ _) (Nat.mod_le _ _)

theorem toPicture_eq_ok {model : ColorModel} {hasAlpha : Bool}
    (hkind : kind? l.raster.layout = some (model, hasAlpha))
    (hdepth : l.raster.layout.size = model.channels + hasAlpha.toNat) :
    l.toPicture = .ok ⟨.ofNat l.raster.width, .ofNat l.raster.height, model, hasAlpha,
      .bytes (l.raster.samples ++ l.spare), hdepth ▸ l.size_le⟩ := by
  simp only [toPicture, hkind]
  rw [Picture.ofStore?, dif_pos (hdepth ▸ l.size_le)]

/-- Which layouts there are pictures for does not depend on the sides. -/
theorem exists_toPicture (h : IsPictured l.raster.layout) :
    ∃ p, l.toPicture = .ok p ∧ l.ShownBy p := by
  rcases h with hlayout | hlayout | hlayout
  · have hok := toPicture_eq_ok (l := l) (by rw [hlayout]; rfl) (by rw [hlayout]; rfl)
    exact ⟨_, hok, ⟨⟨_, rfl⟩, nofun⟩, toNat_ofNat _, toNat_ofNat _, hlayout.symm, rfl⟩
  · have hok := toPicture_eq_ok (l := l) (by rw [hlayout]; rfl) (by rw [hlayout]; rfl)
    exact ⟨_, hok, ⟨⟨_, rfl⟩, nofun⟩, toNat_ofNat _, toNat_ofNat _, hlayout.symm, rfl⟩
  · have hok := toPicture_eq_ok (l := l) (by rw [hlayout]; rfl) (by rw [hlayout]; rfl)
    exact ⟨_, hok, ⟨⟨_, rfl⟩, fun _ => rfl⟩, toNat_ofNat _, toNat_ofNat _, hlayout.symm, rfl⟩

theorem toPicture_eq_error_iff {e : Refusal} :
    l.toPicture = .error e ↔ e = .foreignLayout l.raster.layout ∧ ¬ IsPictured l.raster.layout := by
  by_cases h : IsPictured l.raster.layout
  · obtain ⟨p, hp, -⟩ := exists_toPicture h
    rw [hp]
    exact iff_of_false nofun fun he => he.2 h
  · have hkind := kind?_eq_none_iff.mpr h
    simp [toPicture, hkind, h, eq_comm]

/-! ### There and back -/

/-- What a picture shows is loaded from it, unless a side did not fit. -/
theorem ShownBy.load?_eq_iff (h : l.ShownBy p) :
    p.load? = .ok l ↔ l.raster.width < Word.span32 ∧ l.raster.height < Word.span32 := by
  rw [h.plain.load?_eq h.store_eq]
  constructor
  · intro hload
    have hraster := congrArg Loaded.raster (Except.ok.inj hload)
    have hwidth : p.width.toNat = l.raster.width := congrArg Raster.width hraster
    have hheight : p.height.toNat = l.raster.height := congrArg Raster.height hraster
    exact ⟨hwidth ▸ p.width.toNat_lt, hheight ▸ p.height.toNat_lt⟩
  · rintro ⟨hw, hh⟩
    have hwidth : p.width.toNat = l.raster.width := h.width_eq.trans (Nat.mod_eq_of_lt hw)
    have hheight : p.height.toNat = l.raster.height := h.height_eq.trans (Nat.mod_eq_of_lt hh)
    have hcount : p.count = l.raster.samples.size := by
      rw [Picture.count, ← h.plain.size_plainLayout, hwidth, hheight, h.layout_eq, l.raster.size_eq]
    have hraster : p.plain (l.raster.samples ++ l.spare) = l.raster := by
      refine Raster.ext_samples hwidth hheight h.layout_eq ?_
      rw [h.plain.samples_plain h.store_eq, hcount]
      simp
    rw [hraster, hcount]
    simp

theorem kind?_plainLayout (h : p.IsPlain) : kind? p.plainLayout = some (p.model, p.hasAlpha) := by
  obtain ⟨width, height, model, hasAlpha, store, size_le⟩ := p
  cases model with
  | rgb => cases hasAlpha <;> rfl
  | gray =>
    cases hasAlpha with
    | false => rfl
    | true => cases h.rgb_of_alpha rfl

/-- What is loaded from a plain picture becomes this picture. -/
theorem toPicture_of_load? (h : p.IsPlain) (hl : p.load? = .ok l) : l.toPicture = .ok p := by
  obtain ⟨data, hdata⟩ := h.exists_bytes
  rw [h.load?_eq hdata] at hl
  cases hl
  have hsamples : (p.plain data).samples ++ data.extract p.count data.size = data := by
    have hsize : p.count ≤ data.size := by
      have := p.size_le
      rwa [hdata] at this
    rw [h.samples_plain hdata, Array.extract_append_extract]
    simp [hsize]
  rw [toPicture_eq_ok (l := ⟨p.plain data, _⟩) (kind?_plainLayout h) h.size_plainLayout]
  obtain ⟨width, height, model, hasAlpha, store, size_le⟩ := p
  obtain rfl : store = .bytes data := hdata
  simp only [Except.ok.injEq, Picture.mk.injEq, true_and]
  exact ⟨UInt32.ofNat_toNat, UInt32.ofNat_toNat, congrArg _ hsamples⟩

/-- **There and back.**  A raster has a picture exactly when its layout has one, and the picture
shows it; what is loaded from the picture is the same exactly when both sides fit 32 bits.  A plain
picture is the picture of what is loaded from it. -/
theorem toPicture_load? (l : Loaded) (p : Picture) :
    (∀ e, l.toPicture = .error e ↔
      e = .foreignLayout l.raster.layout ∧ ¬ IsPictured l.raster.layout) ∧
    (l.toPicture = .ok p → l.ShownBy p ∧
      (p.load? = .ok l ↔ l.raster.width < Word.span32 ∧ l.raster.height < Word.span32)) ∧
    (p.IsPlain → ∃ loaded, p.load? = .ok loaded ∧ loaded.toPicture = .ok p) := by
  refine ⟨fun e => toPicture_eq_error_iff, fun hp => ?_, fun hp => ?_⟩
  · have hlayout : IsPictured l.raster.layout := Classical.byContradiction fun hforeign => by
      cases hp.symm.trans (toPicture_eq_error_iff.mpr ⟨rfl, hforeign⟩)
    obtain ⟨shown, hok, hshown⟩ := exists_toPicture hlayout
    obtain rfl : shown = p := Except.ok.inj (hok.symm.trans hp)
    exact ⟨hshown, hshown.load?_eq_iff⟩
  · obtain ⟨data, hdata⟩ := hp.exists_bytes
    exact ⟨_, hp.load?_eq hdata, toPicture_of_load? hp (hp.load?_eq hdata)⟩

/-- Two by one pixels with opacity, and two samples behind them. -/
def overlongPicture : Picture where
  width := 2
  height := 1
  model := .rgb
  hasAlpha := true
  store := .bytes #[1, 2, 3, 4, 5, 6, 7, 8, 9, 10]
  size_le := by decide

theorem toPicture_load?_overlong :
    overlongPicture.IsPlain ∧ (∃ l, overlongPicture.load? = .ok l ∧ l.spare = #[9, 10] ∧
      l.toPicture = .ok overlongPicture ∧ l.ShownBy overlongPicture) ∧
    (Raster.blank 2 1 #[.alpha, .color]).toPicture =
      .error (.foreignLayout #[.alpha, .color]) := by
  have hplain : overlongPicture.IsPlain := ⟨⟨_, rfl⟩, fun _ => rfl⟩
  obtain ⟨hforeign, -, hloaded⟩ :=
    toPicture_load? ⟨Raster.blank 2 1 #[.alpha, .color], #[]⟩ overlongPicture
  obtain ⟨l, hload, hback⟩ := hloaded hplain
  obtain ⟨hshown, -⟩ := (toPicture_load? l overlongPicture).2.1 hback
  refine ⟨hplain, ⟨l, hload, ?_, hback, hshown⟩, ?_⟩
  · exact congrArg Loaded.spare (Except.ok.inj hload).symm
  · exact (hforeign _).mpr ⟨rfl, by unfold IsPictured; decide⟩

/-- No pixels, in rows of 2³². -/
def wideRaster : Raster :=
  .blank 4294967296 0 .gray

/-- It can be made, and it becomes a picture without a word, but not one of its width. -/
theorem toPicture_wideRaster :
    Raster.blank? 4294967296 0 .gray = .ok wideRaster ∧
    ∃ p, wideRaster.toPicture = .ok p ∧ p.width.toNat ≠ wideRaster.width ∧
      p.load? = .ok ⟨.blank 0 0 .gray, #[]⟩ ∧ p.load? ≠ .ok ⟨wideRaster, #[]⟩ := by
  refine ⟨rfl, ⟨0, 0, .gray, false, .bytes #[], by decide⟩, rfl, by decide, rfl, ?_⟩
  intro hload
  have hwidth := congrArg (·.raster.width) (Except.ok.inj hload)
  exact absurd hwidth (by decide)

end Loaded

end Retouch
