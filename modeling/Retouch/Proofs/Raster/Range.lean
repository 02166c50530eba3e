import Retouch.Proofs.Canvas.Halving

/-!
# Retouch — Raster — The range of a channel

A sample is *spanned* by others when one of them is not above it and one is not below it.  Channel
`k` of a raster *spans* that of another raster when every sample of the second is spanned by samples
of the first (`Raster.Spans`): from the one to the other the channel has not left its range.  A
channel of one value then keeps that value (`Raster.Spans.sample_eq`).

The mean of a block is spanned by the block, so halving stays in the range.  A scaler that stays in
the range of its planes *keeps range* (`Scaler.KeepsRange`), and so do rasters that it scales.  Any
scaler can be restrained to do so (`Scaler.keepsRange_restrained`).
-/

namespace Retouch

/-! ### Means -/

namespace Blend

/-- One of four samples is not above their even mean. -/
theorem exists_le_mean_quarters (a b c d : UInt8) :
    ∃ v ∈ [a, b, c, d], v ≤ mean [a, b, c, d] quarters := by
  have hmean := toNat_mean_quarters a b c d
  simp only [List.mem_cons, List.not_mem_nil, or_false, exists_eq_or_imp, exists_eq_left,
    UInt8.le_iff_toNat_le]
  omega

/-- One of four samples is not below their even mean. -/
theorem exists_mean_quarters_le (a b c d : UInt8) :
    ∃ v ∈ [a, b, c, d], mean [a, b, c, d] quarters ≤ v := by
  have hmean := toNat_mean_quarters a b c d
  simp only [List.mem_cons, List.not_mem_nil, or_false, exists_eq_or_imp, exists_eq_left,
    UInt8.le_iff_toNat_le]
  omega

end Blend

/-! ### Scalers that stay in range -/

namespace Scaler

/-- Between two samples of the plane, or one of them. -/
def Spanned (plane : Array UInt8) (v : UInt8) : Prop :=
  (∃ a ∈ plane, a ≤ v) ∧ ∃ b ∈ plane, v ≤ b

instance (plane : Array UInt8) (v : UInt8) : Decidable (Spanned plane v) := by
  unfold Spanned; infer_instance

theorem spanned_of_mem {plane : Array UInt8} {v : UInt8} (h : v ∈ plane) : Spanned plane v :=
  ⟨⟨v, h, UInt8.le_refl v⟩, ⟨v, h, UInt8.le_refl v⟩⟩

/-- At any other size, a plane has samples between its smallest and its largest only. -/
def KeepsRange (scaler : Scaler) : Prop :=
  ∀ (width height : Nat) (plane : Array UInt8) (width' height' : Nat), 0 < width → 0 < height →
    plane.size = width * height →
      ∀ v ∈ scaler.scale width height plane width' height', Spanned plane v

/-- The scaler with the first sample of the plane in place of those that are out of its range. -/
def restrained (scaler : Scaler) : Scaler where
  scale width height plane width' height' :=
    (scaler.scale width height plane width' height').map fun v =>
      if Spanned plane v then v else plane.getD 0 0
  size_scale width height plane width' height' := by
    rw [Array.size_map, scaler.size_scale]

theorem keepsRange_restrained (scaler : Scaler) : scaler.restrained.KeepsRange := by
  intro width height plane width' height' hwidth hheight hsize v hv
  obtain ⟨u, -, rfl⟩ := Array.mem_map.mp hv
  have hpos : 0 < plane.size := hsize ▸ Nat.mul_pos hwidth hheight
  by_cases hu : Spanned plane u
  · simp only [hu, if_true]
  · simp only [hu, if_false]
    exact spanned_of_mem (by simp [Array.getD, hpos])

end Scaler

/-! ### Rasters in range -/

namespace Raster

variable {r s t : Raster} {k : Nat}

/-- Every sample of channel `k` of `s` lies between two samples of that channel of `r`. -/
def Spans (r s : Raster) (k : Nat) : Prop :=
  ∀ p < s.area, (∃ a < r.area, r.sample a k ≤ s.sample p k) ∧
    ∃ b < r.area, s.sample p k ≤ r.sample b k

/-- A sample of the raster itself is in its range. -/
theorem spans_sample {p : Nat} (hp : p < r.area) :
    (∃ a < r.area, r.sample a k ≤ r.sample p k) ∧ ∃ b < r.area, r.sample p k ≤ r.sample b k :=
  ⟨⟨p, hp, UInt8.le_refl _⟩, ⟨p, hp, UInt8.le_refl _⟩⟩

theorem Spans.refl (r : Raster) (k : Nat) : r.Spans r k :=
  fun _ hp => spans_sample hp

theorem Spans.trans (hrs : r.Spans s k) (hst : s.Spans t k) : r.Spans t k := by
  intro p hp
  obtain ⟨⟨a, ha, hle⟩, ⟨b, hb, hge⟩⟩ := hst p hp
  obtain ⟨⟨a', ha', hle'⟩, -⟩ := hrs a ha
  obtain ⟨-, ⟨b', hb', hge'⟩⟩ := hrs b hb
  exact ⟨⟨a', ha', UInt8.le_trans hle' hle⟩, ⟨b', hb', UInt8.le_trans hge hge'⟩⟩

/-- Where the channel has the same samples, it has the same range. -/
theorem Spans.congr (h : r.Spans s k) (harea : t.area = s.area)
    (hsample : ∀ p < s.area, t.sample p k = s.sample p k) : r.Spans t k := by
  intro p hp
  have hp' : p < s.area := Nat.lt_of_lt_of_eq hp harea
  rw [hsample p hp']
  exact h p hp'

/-- A channel of one value keeps it. -/
theorem Spans.sample_eq (h : r.Spans s k) {v : UInt8} (hr : ∀ p < r.area, r.sample p k = v)
    {p : Nat} (hp : p < s.area) : s.sample p k = v := by
  obtain ⟨⟨a, ha, hle⟩, ⟨b, hb, hge⟩⟩ := h p hp
  exact UInt8.le_antisymm (hr b hb ▸ hge) (hr a ha ▸ hle)

/-- Halving stays in the range of every channel. -/
theorem spans_halve (hk : k < r.depth) : r.Spans r.halve k := by
  by_cases h : r.halvable = true
  · intro p hp
    obtain ⟨x, hx, y, hy, rfl⟩ := exists_cell_eq hp
    rw [sample_halve h hx hy hk]
    rw [width_halve h] at hx
    rw [height_halve h] at hy
    -- The samples of the block are samples of the raster.
    have hblock : ∀ v ∈ (r.block x y).map (r.sample · k), ∃ q < r.area, r.sample q k = v := by
      intro v hv
      obtain ⟨q, hq, rfl⟩ := List.mem_map.mp hv
      exact ⟨q, lt_area_of_mem_block hx hy hq, rfl⟩
    constructor
    · obtain ⟨v, hv, hle⟩ := Blend.exists_le_mean_quarters _ _ _ _
      obtain ⟨q, hq, rfl⟩ := hblock v hv
      exact ⟨q, hq, hle⟩
    · obtain ⟨v, hv, hge⟩ := Blend.exists_mean_quarters_le _ _ _ _
      obtain ⟨q, hq, rfl⟩ := hblock v hv
      exact ⟨q, hq, hge⟩
  · rw [halve, if_neg h]
    exact .refl r k

theorem spans_halved (hk : k < r.depth) (n : Nat) : r.Spans (r.halved n) k := by
  induction n with
  | zero => exact .refl r k
  | succ n ih => exact ih.trans (spans_halve ((r.depth_halved n).symm ▸ hk))

/-- Scaling stays in the range of every channel, if the scaler stays in the range of its planes. -/
theorem spans_scaleTo {scaler : Scaler} (hscaler : scaler.KeepsRange) (hr : 0 < r.area)
    (hk : k < r.depth) (width height : Nat) : r.Spans (r.scaleTo scaler width height) k := by
  intro p hp
  have hp' : p < width * height := by simpa [area] using hp
  have hscaled : (scaler.scale r.width r.height (r.plane k) width height).getD p 0 ∈
      scaler.scale r.width r.height (r.plane k) width height := by
    have hsize := scaler.size_scale r.width r.height (r.plane k) width height
    simp [Array.getD, hsize, hp']
  obtain ⟨⟨a, ha, hle⟩, ⟨b, hb, hge⟩⟩ := hscaler r.width r.height (r.plane k) width height
    (Nat.pos_of_mul_pos_right hr) (Nat.pos_of_mul_pos_left hr) (by simp [plane, area]) _ hscaled
  obtain ⟨q, hq, rfl⟩ := mem_plane.mp ha
  obtain ⟨q', hq', rfl⟩ := mem_plane.mp hb
  rw [sample_scaleTo scaler hr hp' hk]
  exact ⟨⟨q, hq, hle⟩, ⟨q', hq', hge⟩⟩

end Raster

end Retouch
