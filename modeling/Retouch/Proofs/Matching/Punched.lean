import Retouch.Proofs.Matching.Exact
import Retouch.Proofs.Matching.Window

/-!
# Retouch — Matching — Holes added

A canvas is *punched* when it gets more holes and keeps its image (`Canvas.Punched`).  A cell that
is open afterwards was open before, with the same pixel, and a cell that is closed costs as much as
cells can.  So punching the target, the source or both makes no cell cheaper
(`Punched.cellCost_le`), no window (`Punched.cost_le`) and no patch nearer
(`Punched.distance_le`): the cost is scaled by the same factor on either side, and cutting to a
whole number keeps the order.

A field in which every distance is that of the patches, and which is measured anew for a punched
target, keeps its positions, and no distance in it gets smaller.
-/

namespace Retouch

/-! ### Canvases -/

/-- The second canvas is the first one, with holes added to it. -/
structure Canvas.Punched (c c' : Canvas) : Prop where
  image_eq : c'.image = c.image
  isHole_of : ∀ p, c.isHole p = true → c'.isHole p = true

namespace Canvas.Punched

variable {c c' c'' : Canvas}

theorem refl (c : Canvas) : c.Punched c :=
  ⟨rfl, fun _ => id⟩

theorem trans (h : c.Punched c') (h' : c'.Punched c'') : c.Punched c'' :=
  ⟨h'.image_eq.trans h.image_eq, fun p hp => h'.isHole_of p (h.isHole_of p hp)⟩

/-- Making a cell a hole adds a hole. -/
theorem markCell (c : Canvas) (p : Nat) : c.Punched (c.markCell p true) := by
  refine ⟨rfl, fun q hq => ?_⟩
  have hsize : q < c.holes.size := by
    by_contra hbeyond
    simp [isHole, Array.getD, hbeyond] at hq
  simp only [isHole, Canvas.markCell, Array.getD_eq_getD_getElem?, Array.getElem?_setIfInBounds]
  by_cases h : p = q
  · subst h
    simp [hsize]
  · rw [if_neg h, ← Array.getD_eq_getD_getElem?]
    exact hq

theorem width_eq (h : c.Punched c') : c'.width = c.width :=
  congrArg Raster.width h.image_eq

theorem height_eq (h : c.Punched c') : c'.height = c.height :=
  congrArg Raster.height h.image_eq

theorem area_eq (h : c.Punched c') : c'.area = c.area :=
  congrArg Raster.area h.image_eq

theorem depth_eq (h : c.Punched c') : c'.depth = c.depth :=
  congrArg Raster.depth h.image_eq

theorem cell_eq (h : c.Punched c') (x y : Nat) : c'.cell x y = c.cell x y := by
  rw [cell, cell, h.width_eq]

theorem sampleAt_eq (h : c.Punched c') (x y : Int) (k : Nat) :
    c'.sampleAt x y k = c.sampleAt x y k := by
  rw [sampleAt, sampleAt, h.image_eq, h.cell_eq]

/-- What is open afterwards was open before. -/
theorem isOpen_of (h : c.Punched c') {x y : Int} (hopen : c'.isOpen x y = true) :
    c.isOpen x y = true := by
  have hcontains : c'.contains x y = c.contains x y := by
    rw [contains, contains, h.width_eq, h.height_eq]
  simp only [isOpen, Bool.and_eq_true, Bool.not_eq_true', hcontains, h.cell_eq] at hopen ⊢
  refine ⟨hopen.1, Bool.eq_false_iff.mpr fun hhole => ?_⟩
  rw [h.isHole_of _ hhole] at hopen
  cases hopen.2

end Canvas.Punched

/-! ### Patches -/

/-- The second pairing is the first one, with holes added to the target and the source. -/
structure Pairing.Punched (p q : Pairing) : Prop where
  target : p.target.Punched q.target
  source : p.source.Punched q.source
  radius_eq : q.radius = p.radius

namespace Pairing.Punched

variable {p q : Pairing}

theorem cellSpan_eq (h : p.Punched q) : q.cellSpan = p.cellSpan := by
  rw [cellSpan, cellSpan, h.target.depth_eq]

theorem fullCost_eq (h : p.Punched q) : q.fullCost = p.fullCost := by
  rw [fullCost, fullCost, side, side, h.cellSpan_eq, h.radius_eq]

theorem window_eq (h : p.Punched q) : q.window = p.window := by
  rw [window, window, offsets, offsets, side, side, h.radius_eq]

/-- No cell gets cheaper. -/
theorem cellCost_le (h : p.Punched q) (x y x' y' : Int) :
    p.cellCost x y x' y' ≤ q.cellCost x y x' y' := by
  by_cases hopen : q.BothOpen x y x' y'
  · have hbefore : p.BothOpen x y x' y' :=
      ⟨h.target.isOpen_of hopen.1, h.source.isOpen_of hopen.2⟩
    rw [cellCost_of_bothOpen hbefore, cellCost_of_bothOpen hopen]
    simp only [h.target.depth_eq, h.source.depth_eq, h.target.sampleAt_eq, h.source.sampleAt_eq,
      le_refl]
  · rw [cellCost_of_not_bothOpen hopen, h.cellSpan_eq]
    exact p.cellCost_le x y x' y'

/-- No window gets cheaper. -/
theorem cost_le (h : p.Punched q) (x y x' y' : Int) : p.cost x y x' y' ≤ q.cost x y x' y' := by
  rw [cost_eq_sum, cost_eq_sum, h.window_eq]
  exact Finset.sum_le_sum fun o _ => h.cellCost_le _ _ _ _

/-- No patch gets nearer. -/
theorem distance_le (h : p.Punched q) (x y x' y' : Int) :
    p.distance x y x' y' ≤ q.distance x y x' y' := by
  rw [distance, distance, h.fullCost_eq]
  exact min_le_min_left _ (Nat.div_le_div_right (Nat.mul_le_mul_left _ (h.cost_le x y x' y')))

theorem roomy_eq (h : p.Punched q) : q.roomy = p.roomy :=
  roomy_congr h.radius_eq h.target.depth_eq h.source.depth_eq

/-- With more holes there are fewer source positions to be held by words. -/
theorem sourceFits_of (h : p.Punched q) {x y x' y' : Int} (hfits : p.sourceFits x y x' y' = true) :
    q.sourceFits x y x' y' = true := by
  simp only [sourceFits, List.all_eq_true, List.mem_range, Bool.or_eq_true, decide_eq_true_eq,
    h.target.area_eq, h.target.width_eq, h.radius_eq] at hfits ⊢
  intro c hc
  exact (hfits c hc).imp_left (Or.imp_left (Or.imp_left (h.target.isHole_of c)))

/-- In roomy pairings, what can be computed before can be computed afterwards. -/
theorem representable (h : p.Punched q) (hroomy : p.roomy = true) {u v u' v' : Nat}
    (hp : p.Representable u v u' v') : q.Representable u v u' v' where
  radius_lt := h.radius_eq ▸ hp.radius_lt
  windowFits := by
    have hwindow := hp.windowFits
    rwa [WindowFits, ← h.radius_eq] at hwindow
  sourceFits := h.sourceFits_of hp.sourceFits
  fits := fits_of_roomy (h.roomy_eq.trans hroomy) _ _ _ _

end Pairing.Punched

/-! ### Fields -/

namespace MatchField

variable {σ : Type} {f g : MatchField σ} {target : Canvas} {p : Nat}

/-- The distance of every match is that of the two patches. -/
def Measured (f : MatchField σ) : Prop :=
  ∀ p < f.entries.size, (f.entry p).distance =
    f.distance (f.column p) (f.row p) (f.entry p).x (f.entry p).y

theorem Exact.measured (hf : f.Exact) : f.Measured :=
  fun p hp => (hf.exactAt p hp).distance_eq

/-- The match of pixel `p` at its distance to another target. -/
def measuredTo (f : MatchField σ) (target : Canvas) (p : Nat) : Match :=
  { f.entry p with
    distance := Pairing.distance ⟨target, f.source, f.radius⟩ (p % target.width : Nat)
      (p / target.width : Nat) (f.entry p).x (f.entry p).y }

/-- Measuring anew keeps every position, and finds its distance to the new target. -/
theorem entry_retarget (f : MatchField σ) (target : Canvas) (hp : p < f.entries.size) :
    (f.retarget target).entry p = f.measuredTo target p := by
  -- A visit looks at the position that it finds, and no visit changes a position.
  have hstep : @Puts σ ⟨target, f.source, f.radius⟩
      (fun q m => m.x = (f.entry q).x ∧ m.y = (f.entry q).y)
      (fun q m => m = f.measuredTo target q) remeasureAt := by
    rintro g q hg ⟨hx, hy⟩
    refine ⟨_, _, rfl, ?_⟩
    simp only [measuredTo, column, row, width, hg, hx, hy]
  have hplaced : ∀ q m, m = f.measuredTo target q →
      m.x = (f.entry q).x ∧ m.y = (f.entry q).y := by
    rintro q m rfl
    exact ⟨rfl, rfl⟩
  exact entry_foldl (f := { f with target }) hstep hplaced rfl
    (fun q hq => ⟨List.mem_range.mp hq, rfl, rfl⟩) (.inl (List.mem_range.mpr hp))

/-- **More holes never bring patches nearer.**  Let holes be added to the target and the source of a
pairing, and to the target of a field in which every distance is that of the patches.  Then no
distance of the pairing is smaller than before; in a roomy pairing those that could be computed can
still be computed.  And when the field is measured anew, its positions stay, and none of its
distances is smaller than before. -/
theorem distance_le_of_punched {p q : Pairing} (hpq : p.Punched q) (hf : f.Measured)
    (htarget : f.target.Punched target) :
    (∀ x y x' y' d, p.distance? x y x' y' = .ok d →
      (∀ d', q.distance? x y x' y' = .ok d' → d ≤ d') ∧
      (p.roomy = true → ∃ d', q.distance? x y x' y' = .ok d')) ∧
    (∀ g, f.retarget? target = .ok g → ∀ i < f.entries.size,
      (g.entry i).x = (f.entry i).x ∧ (g.entry i).y = (f.entry i).y ∧
        (f.entry i).distance ≤ (g.entry i).distance) ∧
    (0 < f.target.depth → f.roomy = true → ∃ g, f.retarget? target = .ok g) := by
  have hpunched : f.toPairing.Punched ⟨target, f.source, f.radius⟩ :=
    ⟨htarget, .refl f.source, rfl⟩
  refine ⟨?_, ?_, ?_⟩
  · intro x y x' y' d hd
    obtain ⟨hdepth, hrepresentable, rfl⟩ := Pairing.distance?_eq_ok_iff.mp hd
    constructor
    · intro d' hd'
      obtain ⟨-, -, rfl⟩ := Pairing.distance?_eq_ok_iff.mp hd'
      exact hpq.distance_le _ _ _ _
    · intro hroomy
      have hdepth' : 0 < q.target.depth := hpq.target.depth_eq ▸ hdepth
      exact ⟨_, (hpq.representable hroomy hrepresentable).distance?_eq_ok hdepth'⟩
  · intro g hg i hi
    obtain rfl := eq_retarget_of_retarget? hg
    rw [entry_retarget f target hi]
    refine ⟨rfl, rfl, ?_⟩
    rw [hf i hi, column, row, width, ← htarget.width_eq]
    exact hpunched.distance_le _ _ _ _
  · intro hdepth hroomy
    exact ⟨_, retarget?_eq_ok_of_roomy htarget.width_eq htarget.height_eq
      (htarget.depth_eq ▸ hdepth) (hpunched.roomy_eq.trans hroomy)⟩

/-- The slanted pairing with one more hole on either side. -/
def punchedPairing : Pairing where
  target := Pairing.slantedPairing.target.markCell 3 true
  source := Pairing.slantedPairing.source.markCell 5 true
  radius := 1

/-- A field in which every pixel is matched with the same position. -/
def slantedField : MatchField Unit where
  toPairing := Pairing.slantedPairing
  entries := .ofFn fun p : Fin 6 =>
    ⟨1, 2, Pairing.slantedPairing.distance (p % 3 : Nat) (p / 3 : Nat) 1 2⟩
  draws := ()

theorem measured_slantedField : slantedField.Measured := by
  intro p hp
  have hsize : p < 6 := hp
  have hentry : slantedField.entry p =
      ⟨1, 2, Pairing.slantedPairing.distance (p % 3 : Nat) (p / 3 : Nat) 1 2⟩ := by
    simp [entry, slantedField, Array.getD, hsize]
  rw [hentry]
  rfl

/-- A patch with a new hole in it, and a field of which some patches get a new hole. -/
theorem distance_le_of_punched_slanted :
    Pairing.slantedPairing.Punched punchedPairing ∧ slantedField.Measured ∧
    slantedField.target.Punched punchedPairing.target ∧
    Pairing.slantedPairing.distance? 0 1 1 1 = .ok 51949 ∧
    (∃ d', punchedPairing.distance? 0 1 1 1 = .ok d' ∧ 51949 ≤ d') ∧
    ∃ g, slantedField.retarget? punchedPairing.target = .ok g ∧
      ∀ i < 6, (slantedField.entry i).distance ≤ (g.entry i).distance := by
  have hpunched : Pairing.slantedPairing.Punched punchedPairing :=
    ⟨.markCell _ 3, .markCell _ 5, rfl⟩
  have hdistance : Pairing.slantedPairing.distance? 0 1 1 1 = .ok 51949 := by decide +kernel
  have hroomy : Pairing.slantedPairing.roomy = true := by decide
  obtain ⟨hpatches, hfield, hmeasured⟩ :=
    distance_le_of_punched hpunched measured_slantedField hpunched.target
  obtain ⟨hle, hfound⟩ := hpatches 0 1 1 1 51949 hdistance
  obtain ⟨d', hd'⟩ := hfound hroomy
  obtain ⟨g, hg⟩ := hmeasured (by decide) hroomy
  refine ⟨hpunched, measured_slantedField, hpunched.target, hdistance, ⟨d', hd', hle d' hd'⟩,
    g, hg, ?_⟩
  intro i hi
  exact (hfield g hg i hi).2.2

end MatchField

end Retouch
