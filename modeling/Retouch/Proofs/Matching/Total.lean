import Retouch.Proofs.Matching.Frame
import Retouch.Proofs.Voting.Samples

/-!
# Retouch — Matching — Checks that pass

A field is *workable* when its canvases are not empty, every pixel of the target has an entry, and
words have room for any distance.  Writing entries keeps it so.  The checks in front of the
operations on a workable field pass, and what a checked operation ends with is the plain one.
-/

namespace Retouch

/-- Whether a pairing is roomy depends on the radius and the numbers of channels only. -/
theorem Pairing.roomy_congr {p q : Pairing} (hradius : q.radius = p.radius)
    (htarget : q.target.depth = p.target.depth) (hsource : q.source.depth = p.source.depth) :
    q.roomy = p.roomy := by
  rw [roomy, roomy, fullCost, fullCost, side, side, cellSpan, cellSpan, hradius, htarget, hsource]

namespace MatchField

variable {σ : Type} {f g : MatchField σ}

/-- Every operation can be carried out on the field. -/
structure Workable (f : MatchField σ) : Prop where
  width_pos : 0 < f.width
  height_pos : 0 < f.height
  depth_pos : 0 < f.target.depth
  source_width_pos : 0 < f.source.width
  source_height_pos : 0 < f.source.height
  size_eq : f.entries.size = f.target.area
  roomy : f.roomy = true

namespace Workable

theorem size_pos (hf : f.Workable) : 0 < f.entries.size :=
  hf.size_eq ▸ Nat.mul_pos hf.width_pos hf.height_pos

theorem sameFrame (hf : f.Workable) (h : SameFrame f g) : g.Workable where
  width_pos := h.width_eq ▸ hf.width_pos
  height_pos := h.height_eq ▸ hf.height_pos
  depth_pos := h.target_eq ▸ hf.depth_pos
  source_width_pos := h.source_eq ▸ hf.source_width_pos
  source_height_pos := h.source_eq ▸ hf.source_height_pos
  size_eq := by rw [h.size_eq, h.target_eq, hf.size_eq]
  roomy := h.toPairing_eq ▸ hf.roomy

/-- A target of the same sides, with as many channels, is as good. -/
theorem withTarget (hf : f.Workable) {target : Canvas} (hwidth : target.width = f.width)
    (hheight : target.height = f.height) (hdepth : target.depth = f.target.depth) :
    ({ f with target } : MatchField σ).Workable where
  width_pos := Nat.lt_of_lt_of_eq hf.width_pos hwidth.symm
  height_pos := Nat.lt_of_lt_of_eq hf.height_pos hheight.symm
  depth_pos := Nat.lt_of_lt_of_eq hf.depth_pos hdepth.symm
  source_width_pos := hf.source_width_pos
  source_height_pos := hf.source_height_pos
  size_eq :=
    calc
      f.entries.size = f.width * f.height := hf.size_eq
      _ = target.width * target.height := by rw [hwidth, hheight]
  roomy := by
    have hsame : (Pairing.mk target f.source f.radius).roomy = f.roomy :=
      Pairing.roomy_congr rfl hdepth rfl
    exact hsame.trans hf.roomy

/-- The seeds for canvases that are not empty, with as many channels, are workable again. -/
theorem seeded (hf : f.Workable) {target source : Canvas}
    (htarget : 0 < target.width ∧ 0 < target.height)
    (hsource : 0 < source.width ∧ 0 < source.height) (hdepth : target.depth = f.target.depth)
    (hdepth' : source.depth = f.source.depth) : (f.seeded target source).Workable where
  width_pos := htarget.1
  height_pos := htarget.2
  depth_pos := Nat.lt_of_lt_of_eq hf.depth_pos hdepth.symm
  source_width_pos := hsource.1
  source_height_pos := hsource.2
  size_eq := Array.size_ofFn
  roomy := by
    have hsame : (Pairing.mk target source f.radius).roomy = f.roomy :=
      Pairing.roomy_congr rfl hdepth hdepth'
    exact hsame.trans hf.roomy

end Workable

/-- A target of the same sides can be measured when words have room for all distances. -/
theorem retarget?_eq_ok_of_roomy {target : Canvas} (hwidth : target.width = f.width)
    (hheight : target.height = f.height) (hdepth : 0 < target.depth)
    (hroomy : Pairing.roomy ⟨target, f.source, f.radius⟩ = true) :
    f.retarget? target = .ok (f.retarget target) := by
  have hfound : ∃ g, f.retarget? target = .ok g := by
    rw [retarget?, Fault.unless_bind_of ⟨hwidth, hheight⟩]
    dsimp only
    split
    · exact ⟨_, rfl⟩
    · rw [Fault.unless_bind_of hdepth, Fault.unless_bind_of (by rw [hroomy, Bool.true_or])]
      exact ⟨_, rfl⟩
  obtain ⟨g, hg⟩ := hfound
  rw [hg, eq_retarget_of_retarget? hg]

theorem retarget?_eq_ok (hf : f.Workable) {target : Canvas} (hwidth : target.width = f.width)
    (hheight : target.height = f.height) (hdepth : target.depth = f.target.depth) :
    f.retarget? target = .ok (f.retarget target) := by
  have hfield := hf.withTarget hwidth hheight hdepth
  exact retarget?_eq_ok_of_roomy hwidth hheight hfield.depth_pos hfield.roomy

theorem checkSearch_eq_ok (hf : f.Workable) : f.checkSearch = .ok () := by
  unfold checkSearch
  split
  · rw [Fault.unless_of hf.source_height_pos, Fault.unless_of hf.depth_pos]
    rfl
  · rfl

variable [WordSource σ]

theorem checkSettle_eq_ok (hf : f.Workable) : f.checkSettle = .ok () := by
  rw [checkSettle, Fault.unless_of hf.depth_pos, hf.roomy]
  rfl

theorem scatter?_eq_ok (hf : f.Workable) : f.scatter? = .ok f.scatter := by
  have hsame : SameFrame f (f.forEach scatterAt) :=
    sameFrame_foldl (fun g p => sameFrame_put g p _ _) _ f
  rw [scatter?, if_neg (Nat.ne_of_gt hf.size_pos),
    Fault.unless_of ⟨hf.source_width_pos, hf.source_height_pos⟩,
    checkSettle_eq_ok (hf.sameFrame hsame)]
  rfl

theorem finer?_eq_ok (hf : f.Workable) {target source : Canvas}
    (htarget : 0 < target.width ∧ 0 < target.height)
    (hsource : 0 < source.width ∧ 0 < source.height) (hdepth : target.depth = f.target.depth)
    (hdepth' : source.depth = f.source.depth) :
    f.finer? target source = .ok (f.finer target source) := by
  have hseeded := hf.seeded htarget hsource hdepth hdepth'
  have harea : ¬ target.area = 0 := Nat.ne_of_gt (Nat.mul_pos htarget.1 htarget.2)
  rw [finer?, Fault.unless_of (.inr hf.height_pos), if_neg harea,
    Fault.unless_of ⟨hf.width_pos, hsource⟩, checkSettle_eq_ok hseeded]
  rfl

theorem improve?_eq_ok (hf : f.Workable) (n : Nat) : f.improve? n = .ok (f.improve n) := by
  unfold improve?
  split
  · rename_i h
    obtain rfl := h.resolve_right (Nat.ne_of_gt hf.size_pos)
    rfl
  · rw [checkSearch_eq_ok hf, hf.roomy]
    rfl

/-- A pixel of the field is refined when its neighbours have positions that words can hold. -/
theorem refine?_eq_ok (hf : f.Workable) {x y : Nat} (hx : x < f.width) (hy : y < f.height)
    {dir : Int} (hdir : (x : Int) - dir < Word.half64 ∧ (y : Int) - dir < Word.half64) :
    f.refine? x y dir = .ok (f.refine x y dir) := by
  have hsize : f.entries.size = f.height * f.width := hf.size_eq.trans (Nat.mul_comm _ _)
  have hentry {row : Nat} (hrow : row < f.height) : row * f.width + x < f.entries.size :=
    hsize ▸ Raster.index_lt hrow hx
  have hneighbour (h : 0 ≤ (y : Int) - dir ∧ (y : Int) - dir < f.height) :
      ((y : Int) - dir).toNat * f.width + x < f.entries.size :=
    hentry ((Int.toNat_lt h.1).mpr h.2)
  simp only [refine?, Fault.unless_of (hentry hy), Fault.unless_of hdir,
    Fault.unless_of hneighbour, checkSearch_eq_ok hf, hf.roomy, Bool.true_or]
  rfl

omit [WordSource σ] in
theorem repaint?_eq_ok {zoom : Zoom} {source target : Canvas} (hradius : f.radius < Word.half64)
    (hcovers : f.Covers zoom target) (hsource : source.depth ≤ target.depth) :
    f.repaint? zoom source target = .ok (f.repaint zoom source target) :=
  repaint?_eq_ok_iff.mpr
    ⟨rfl, fun _ _ => ⟨Nat.ne_of_lt hradius, fun _ => ⟨hcovers, .inl hsource⟩⟩⟩

end MatchField

end Retouch
