import Retouch.Raster.Basic
import Retouch.Raster.Scaler

/-!
# Retouch — Raster — Planes

The channels of a raster as planes, and the raster at another size.  Every channel, opacity
included, is brought to the new size by itself, so all layouts are treated alike.  When one of the
four sides is zero the result is blank.
-/

namespace Retouch.Raster

/-- The samples of channel `c`, pixel by pixel. -/
def plane (r : Raster) (c : Nat) : Array UInt8 :=
  Array.ofFn fun p : Fin r.area => r.sample p c

/-- The one-channel raster of channel `c`. -/
def channelRaster (r : Raster) (c : Nat) : Raster where
  width := r.width
  height := r.height
  layout := .gray
  samples := r.plane c
  size_eq := by simp [plane, area, Layout.gray]

/-- The raster whose channel `c` holds the samples of plane `c`. -/
def ofPlanes (width height : Nat) (layout : Layout) (planes : Array (Array UInt8)) : Raster :=
  generate width height layout fun p c => (planes.getD c #[]).getD p 0

/-- The raster at the size `width × height`. -/
def scaleTo (r : Raster) (scaler : Scaler) (width height : Nat) : Raster :=
  if r.width = 0 ∨ r.height = 0 ∨ width = 0 ∨ height = 0 then
    blank width height r.layout
  else
    ofPlanes width height r.layout <| Array.ofFn fun c : Fin r.depth =>
      scaler.scale r.width r.height (r.plane c) width height

/-- `scaleTo`, provided that the result can be allocated. -/
def scaleTo? (r : Raster) (scaler : Scaler) (width height : Nat) : Except Fault Raster := do
  checkSize width height r.layout
  return r.scaleTo scaler width height

@[simp]
theorem width_scaleTo (r : Raster) (scaler : Scaler) (width height : Nat) :
    (r.scaleTo scaler width height).width = width := by
  unfold scaleTo; split <;> rfl

@[simp]
theorem height_scaleTo (r : Raster) (scaler : Scaler) (width height : Nat) :
    (r.scaleTo scaler width height).height = height := by
  unfold scaleTo; split <;> rfl

@[simp]
theorem layout_scaleTo (r : Raster) (scaler : Scaler) (width height : Nat) :
    (r.scaleTo scaler width height).layout = r.layout := by
  unfold scaleTo; split <;> rfl

/-- A sample at the new size is one of its scaled plane. -/
theorem sample_scaleTo {r : Raster} (scaler : Scaler) {width height p k : Nat}
    (hr : 0 < r.area) (hp : p < width * height) (hk : k < r.depth) :
    (r.scaleTo scaler width height).sample p k =
      (scaler.scale r.width r.height (r.plane k) width height).getD p 0 := by
  have hsides : ¬ (r.width = 0 ∨ r.height = 0 ∨ width = 0 ∨ height = 0) := by
    rintro (h | h | rfl | rfl)
    · simp [area, h] at hr
    · simp [area, h] at hr
    · simp at hp
    · simp at hp
  rw [scaleTo, if_neg hsides, ofPlanes, sample_generate hp hk]
  simp [hk]

/-- The samples of a plane are those of its channel. -/
theorem mem_plane {r : Raster} {k : Nat} {v : UInt8} :
    v ∈ r.plane k ↔ ∃ p < r.area, r.sample p k = v := by
  simp only [plane, Array.mem_ofFn]
  exact ⟨fun ⟨p, hp⟩ => ⟨p, p.isLt, hp⟩, fun ⟨p, hp, hv⟩ => ⟨⟨p, hp⟩, hv⟩⟩

end Retouch.Raster
