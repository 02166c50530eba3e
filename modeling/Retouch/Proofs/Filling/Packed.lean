import Retouch.Proofs.Filling.Observed
import Retouch.Proofs.Raster.Packed

/-!
# Retouch — Filling — Packed pixels in a run

The canvases of a run are scaled as packed pixels (`Resizing.packed`).  Where the sides of the
first one fit the words of scalers, whatever the scaler makes of the pixels, the outcomes are
canvases of the run again, only an overflow stands in the way, and where words have room there is
none (`staysWithin_packed`, `onlyOverflows_packed`, `succeeds_packed`).  No hole appears when the
scaler brings a plane of zeros to a plane of zeros (`staysOpen_packed`).

A channelwise scaler does to these canvases what its scaler of planes does (`sameWithin_packed`),
and runs that resize alike are alike, from step to step (`run_eq`).  So what is known of runs that
scale plane by plane holds of these runs too (`run_packed`).
-/

namespace Retouch

/-- What follows a step need only be the same for its results. -/
theorem bind_congr_of_ok {ε α β : Type} {x : Except ε α} {f g : α → Except ε β}
    (h : ∀ a, x = .ok a → f a = g a) : x >>= f = x >>= g := by
  cases x with
  | error => rfl
  | ok a => exact h a rfl

/-! ### Canvases that scalers can count -/

/-- The sides of the canvas fit the words that scalers count in. -/
structure Canvas.Countable (c : Canvas) : Prop where
  width_lt : c.width < Word.span32
  height_lt : c.height < Word.span32

namespace Canvas

variable {c initial size : Canvas}

theorem Countable.within (h : initial.Countable) (hc : c.Within initial) : c.Countable :=
  ⟨Nat.lt_of_le_of_lt hc.width_le h.width_lt, Nat.lt_of_le_of_lt hc.height_le h.height_lt⟩

/-- The mask has the sides of the image. -/
theorem Countable.mask (h : c.Countable) (hc : c.Consistent) :
    c.mask.width < Word.span32 ∧ c.mask.height < Word.span32 :=
  ⟨hc.width_eq ▸ h.width_lt, hc.height_eq ▸ h.height_lt⟩

/-- For sides that scalers can count, only memory stands in the way of image and mask. -/
theorem Countable.exists_resampled (h : initial.Countable) (hc : c.Within initial)
    (hsize : size.Within initial) (scaler : PackedScaler) : ∃ image mask,
      c.image.resample? scaler size.width size.height =
        ((Raster.checkSize size.width size.height c.image.layout).map fun _ => image) ∧
      c.mask.resample? scaler size.width size.height =
        (Raster.checkSize size.width size.height c.mask.layout).map fun _ => mask := by
  have hsizes := h.within hsize
  have hcount := h.within hc
  obtain ⟨hmaskWidth, hmaskHeight⟩ := hcount.mask hc.consistent
  obtain ⟨image, himage⟩ := @Raster.exists_resample?_eq c.image scaler size.width size.height
    (fun _ => Raster.area_le_of_sides hcount.width_lt hcount.height_lt) hsizes.width_lt
    hsizes.height_lt
  obtain ⟨mask, hmask⟩ := @Raster.exists_resample?_eq c.mask scaler size.width size.height
    (fun _ => Raster.area_le_of_sides hmaskWidth hmaskHeight) hsizes.width_lt hsizes.height_lt
  exact ⟨image, mask, himage, hmask⟩

end Canvas

namespace Resizing

open Canvas MatchField Filling

variable {initial : Canvas} {scaler : PackedScaler} {radius : Nat}

theorem staysWithin_packed (scaler : PackedScaler) (initial : Canvas) :
    (packed scaler).StaysWithin initial := by
  intro c size scaled hc hsize hscaled
  obtain ⟨image, himage, hscaled⟩ := bind_eq_ok_iff.mp hscaled
  obtain ⟨mask, hmask, hscaled⟩ := bind_eq_ok_iff.mp hscaled
  obtain ⟨_, _, hscaled⟩ := bind_eq_ok_iff.mp hscaled
  cases hscaled
  have himage := Raster.sameShape_of_resample? himage
  have hmask := Raster.sameShape_of_resample? hmask
  have hconsistent : (ofParts image mask).Consistent :=
    consistent_ofParts (hmask.width_eq.trans himage.width_eq.symm)
      (hmask.height_eq.trans himage.height_eq.symm)
      (hmask.depth_eq.trans hc.consistent.depth_mask)
  have hlayout : (ofParts image mask).layout = initial.layout :=
    himage.layout_eq.trans hc.layout_eq
  exact ⟨.of_sides hsize hconsistent hlayout himage.width_eq himage.height_eq, himage.width_eq,
    himage.height_eq⟩

theorem onlyOverflows_packed (hinitial : initial.Countable) (scaler : PackedScaler) :
    (packed scaler).OnlyOverflows initial := by
  intro c size hc hsize
  obtain ⟨image, mask, himage, hmask⟩ := hinitial.exists_resampled hc hsize scaler
  have hallocated (r out : Raster) : OkUnless .overflow
      ((Raster.checkSize size.width size.height r.layout).map fun _ => out) fun _ => True :=
    (Fault.okUnless _ _).map fun _ _ => trivial
  rw [packed, resample?, himage, hmask]
  refine (hallocated c.image image).bind fun _ _ => ?_
  refine (hallocated c.mask mask).bind fun _ _ => ?_
  exact (Fault.okUnless _ _).bind fun _ _ => .ok trivial

theorem succeeds_packed (hroom : initial.HasRoom radius) (hinitial : initial.Countable)
    (scaler : PackedScaler) : (packed scaler).Succeeds initial := by
  intro c size hc hsize
  obtain ⟨image, mask, himage, hmask⟩ := hinitial.exists_resampled hc hsize scaler
  have hlayout : c.image.layout.size ≤ initial.depth := Nat.le_of_eq hc.depth_eq
  have hmaskLayout : c.mask.layout.size ≤ initial.depth :=
    Nat.le_trans (Nat.le_of_eq hc.consistent.depth_mask) hroom.depth_pos
  have hrows : checkRows size.width c.depth = .ok () := hc.depth_eq ▸ hroom.checkRows_eq_ok hsize
  rw [hroom.checkSize_eq_ok hsize hlayout] at himage
  rw [hroom.checkSize_eq_ok hsize hmaskLayout] at hmask
  exact ⟨_, bind_eq_ok_iff.mpr ⟨image, himage, bind_eq_ok_iff.mpr ⟨mask, hmask,
    bind_eq_ok_iff.mpr ⟨(), hrows, rfl⟩⟩⟩⟩

/-- The mask is scaled as the plane that it is. -/
theorem staysOpen_packed (hinitial : initial.Countable) (hscaler : scaler.planes.KeepsBlack) :
    (packed scaler).StaysOpen initial := by
  intro c size scaled hc hsize hnone hscaled
  have hsizes := hinitial.within hsize
  obtain ⟨hmaskWidth, hmaskHeight⟩ := (hinitial.within hc).mask hc.consistent
  have hsplits : scaler.SplitsAt c.mask.depth := hc.consistent.depth_mask ▸ scaler.splitsAt_one
  obtain ⟨image, -, hscaled⟩ := bind_eq_ok_iff.mp hscaled
  obtain ⟨mask, hmask, hscaled⟩ := bind_eq_ok_iff.mp hscaled
  obtain ⟨_, _, hscaled⟩ := bind_eq_ok_iff.mp hscaled
  cases hscaled
  rw [Raster.resample?_eq_scaleTo? hsplits hmaskWidth hmaskHeight hsizes.width_lt
    hsizes.height_lt] at hmask
  obtain ⟨_, _, hmask⟩ := bind_eq_ok_iff.mp hmask
  cases hmask
  exact countHoles_scaleTo hscaler hc.consistent hnone size.width size.height

/-! ### Runs that resize alike -/

/-- Two ways of resizing do the same to the canvases of a run. -/
def SameWithin (resize resize' : Resizing) (initial : Canvas) : Prop :=
  ∀ {c size : Canvas}, c.Within initial → size.Within initial →
    resize c size.width size.height = resize' c size.width size.height

/-- For sides that fit their words, a channelwise scaler and its scaler of planes are such ways. -/
theorem sameWithin_packed (hinitial : initial.Countable) (hscaler : scaler.ChannelWise) :
    (packed scaler).SameWithin (planes scaler.planes) initial := by
  intro c size hc hsize
  have hsizes := hinitial.within hsize
  have hcount := hinitial.within hc
  obtain ⟨hmaskWidth, hmaskHeight⟩ := hcount.mask hc.consistent
  have himage := Raster.resample?_eq_scaleTo? (r := c.image) (hscaler.splitsAt _) hcount.width_lt
    hcount.height_lt hsizes.width_lt hsizes.height_lt
  have hmask := Raster.resample?_eq_scaleTo? (r := c.mask) (hscaler.splitsAt _) hmaskWidth
    hmaskHeight hsizes.width_lt hsizes.height_lt
  rw [packed, planes, resample?, scaleTo?, himage, hmask, Raster.scaleTo?, Raster.scaleTo?, layout]
  cases Raster.checkSize size.width size.height c.image.layout with
  | error => rfl
  | ok => cases Raster.checkSize size.width size.height c.mask.layout <;> rfl

variable {σ : Type} [WordSource σ] {resize resize' : Resizing} {settings : Settings}
  {f : MatchField σ}

theorem workLevel_eq (h : resize.SameWithin resize' initial) (hf : f.Ready initial radius)
    (level : Nat) {finer : Canvas} (hfiner : finer.Within initial) :
    resize.workLevel settings level finer f = resize'.workLevel settings level finer f := by
  refine bind_congr_of_ok fun turned hturns => ?_
  refine bind_congr_of_ok fun improved himprove => ?_
  have hready := (ready_of_turns hf hturns).sameFrame (sameFrame_of_improve? himprove)
  rw [h hready.target hfiner]

theorem climb_eq (hwithin : resize.StaysWithin initial) (h : resize.SameWithin resize' initial)
    (hf : f.Ready initial radius) {others : List Canvas}
    (hothers : ∀ c ∈ others, c.Within initial) :
    resize.climb settings f others = resize'.climb settings f others := by
  induction others generalizing f with
  | nil => rfl
  | cons finer rest ih =>
    obtain ⟨hfiner, hrest⟩ := List.forall_mem_cons.mp hothers
    have hwork : resize.workLevel settings (rest.length + 1) finer f =
        resize'.workLevel settings (rest.length + 1) finer f := workLevel_eq h hf _ hfiner
    by_cases hlast : rest = []
    · subst hlast
      rw [climb_last, climb_last]
      exact congrArg (· >>= _) hwork
    · rw [climb_next f finer hlast, climb_next f finer hlast, ← hwork]
      refine bind_congr_of_ok fun done hdone => ?_
      obtain ⟨hfield, htarget, -⟩ := ready_of_workLevel hwithin hf hfiner hdone
      refine bind_congr_of_ok fun next hnext => ?_
      rw [ih (ready_of_finer? hfield htarget hfiner hnext) hrest]

theorem reconstruct_eq (hwithin : resize.StaysWithin initial)
    (h : resize.SameWithin resize' initial) (start : σ) {coarsest : Canvas}
    (hcoarsest : coarsest.Within initial) {others : List Canvas}
    (hothers : ∀ c ∈ others, c.Within initial) :
    resize.reconstruct settings start coarsest others =
      resize'.reconstruct settings start coarsest others :=
  bind_congr_of_ok fun _ hfield =>
    climb_eq hwithin h (ready_of_coarsestField? hcoarsest hfield) hothers

variable (settings) (start : σ)

/-- **Runs that resize alike are alike.** -/
theorem run_eq (hwithin : resize.StaysWithin initial.trimmed)
    (h : resize.SameWithin resize' initial.trimmed) (hinitial : initial.Fillable) :
    resize.run settings start initial = resize'.run settings start initial := by
  cases hcoarsest : (Pyramid.build initial settings.radius).coarsest with
  | zero => rw [run_of_coarsest_eq_zero hcoarsest, run_of_coarsest_eq_zero hcoarsest]
  | succ n =>
    have hothers : ∀ c ∈ (List.range (n + 1)).reverse.map initial.trimmed.halved,
        c.Within initial.trimmed := by
      intro c hc
      obtain ⟨k, -, rfl⟩ := List.mem_map.mp hc
      exact hinitial.within.halved k
    rw [run_of_coarsest_eq_succ hinitial.inside hcoarsest,
      run_of_coarsest_eq_succ hinitial.inside hcoarsest,
      reconstruct_eq hwithin h start (hinitial.within.halved (n + 1)) hothers]

/-- A run that scales packed pixels channel by channel is the run that scales planes. -/
theorem run_packed (hscaler : scaler.ChannelWise) (hinitial : initial.Fillable)
    (hcount : initial.trimmed.Countable) :
    (packed scaler).run settings start initial = Filling.run scaler.planes settings start initial :=
  run_eq settings start (staysWithin_packed scaler _) (sameWithin_packed hcount hscaler) hinitial

end Resizing

end Retouch
