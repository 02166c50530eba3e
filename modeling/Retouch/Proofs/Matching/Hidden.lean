import Retouch.Proofs.Matching.Frame
import Retouch.Proofs.Voting.Hidden

/-!
# Retouch — Matching — Hidden pixels

A cell of a window that is a hole costs the same whatever its samples are.  So the distance of two
patches is a function of what is open (`Pairing.Agree.distance_eq`), and two fields with the same
entries and the same draws, whose canvases agree, are worked in lock step: every operation takes
them to fields that agree again, or faults on both (`Alike`).
-/

namespace Retouch

/-! ### Two computations side by side -/

/-- Both computations have a result, and the two are related, or both end with the same error. -/
inductive Alike {ε α β : Type} (R : α → β → Prop) : Except ε α → Except ε β → Prop where
  | ok {a : α} {b : β} (h : R a b) : Alike R (.ok a) (.ok b)
  | error (e : ε) : Alike R (.error e) (.error e)

namespace Alike

variable {ε α β γ δ : Type} {x : Except ε α} {y : Except ε β} {R : α → β → Prop}
  {S : γ → δ → Prop}

theorem bind (h : Alike R x y) {f : α → Except ε γ} {g : β → Except ε δ}
    (hfg : ∀ a b, R a b → Alike S (f a) (g b)) : Alike S (x >>= f) (y >>= g) := by
  cases h with
  | ok h => exact hfg _ _ h
  | error e => exact .error e

/-- The two begin with the same step. -/
theorem same (x : Except ε α) {f : α → Except ε γ} {g : α → Except ε δ}
    (hfg : ∀ a, Alike S (f a) (g a)) : Alike S (x >>= f) (x >>= g) := by
  cases x with
  | ok a => exact hfg a
  | error e => exact .error e

theorem mono (h : Alike R x y) {S : α → β → Prop} (hRS : ∀ a b, R a b → S a b) :
    Alike S x y := by
  cases h with
  | ok h => exact .ok (hRS _ _ h)
  | error e => exact .error e

/-- What each of the two results is known to satisfy by itself. -/
theorem and_ok (h : Alike R x y) {P : α → Prop} {Q : β → Prop} (hP : ∀ a, x = .ok a → P a)
    (hQ : ∀ b, y = .ok b → Q b) : Alike (fun a b => R a b ∧ P a ∧ Q b) x y := by
  cases h with
  | ok h => exact .ok ⟨h, hP _ rfl, hQ _ rfl⟩
  | error e => exact .error e

/-- Where the first has a result, so has the second. -/
theorem exists_ok (h : Alike R x y) {a : α} (hx : x = .ok a) : ∃ b, y = .ok b ∧ R a b := by
  cases h with
  | ok h =>
    cases hx
    exact ⟨_, rfl, h⟩
  | error e => cases hx

/-- Something is made of the second result. -/
theorem map_right (h : Alike R x y) {S : α → γ → Prop} {f : β → γ}
    (hf : ∀ a b, R a b → S a (f b)) : Alike S x (y.map f) := by
  cases h with
  | ok h => exact .ok (hf _ _ h)
  | error e => exact .error e

theorem ofFault {x : Except Fault α} {y : Except Fault β} (h : Alike R x y) :
    Alike R (Failure.ofFault x) (Failure.ofFault y) := by
  cases h with
  | ok h => exact .ok h
  | error e => exact .error _

/-- With equal results they are one computation. -/
theorem eq {x y : Except ε α} (h : Alike Eq x y) : x = y := by
  cases h with
  | ok h => exact congrArg Except.ok h
  | error e => rfl

end Alike

/-! ### Pairings -/

/-- The squared difference of two open pixels is the same in canvases that agree. -/
theorem Canvas.Agree.squaredDifference_eq {c c' d d' : Canvas} (hc : c.Agree c') (hd : d.Agree d')
    {p q : Nat} (hp : p < c.area ∧ c.isHole p = false) (hq : q < d.area ∧ d.isHole q = false) :
    c.squaredDifference d p q = c'.squaredDifference d' p q := by
  have hdepth : c.depth = c'.depth := hc.shape.depth_eq
  have hdepth' : d.depth = d'.depth := hd.shape.depth_eq
  rw [squaredDifference, squaredDifference, ← hdepth, ← hdepth']
  refine Sum.below_congr fun k hk => ?_
  obtain ⟨hkc, hkd⟩ := Nat.lt_min.mp hk
  rw [hc.sample_eq p hp.1 hp.2 k hkc, hd.sample_eq q hq.1 hq.2 k hkd]

/-- The pairings compare canvases that agree, at one radius. -/
structure Pairing.Agree (p q : Pairing) : Prop where
  target : p.target.Agree q.target
  source : p.source.Agree q.source
  radius_eq : p.radius = q.radius

namespace Pairing.Agree

variable {p q : Pairing}

theorem target_width (h : p.Agree q) : p.target.width = q.target.width :=
  h.target.shape.width_eq

theorem target_height (h : p.Agree q) : p.target.height = q.target.height :=
  h.target.shape.height_eq

theorem target_depth (h : p.Agree q) : p.target.depth = q.target.depth :=
  h.target.shape.depth_eq

theorem source_width (h : p.Agree q) : p.source.width = q.source.width :=
  h.source.shape.width_eq

theorem source_height (h : p.Agree q) : p.source.height = q.source.height :=
  h.source.shape.height_eq

theorem source_depth (h : p.Agree q) : p.source.depth = q.source.depth :=
  h.source.shape.depth_eq

theorem side_eq (h : p.Agree q) : p.side = q.side := by
  rw [side, side, h.radius_eq]

theorem cellSpan_eq (h : p.Agree q) : p.cellSpan = q.cellSpan := by
  rw [cellSpan, cellSpan, h.target_depth]

theorem fullCost_eq (h : p.Agree q) : p.fullCost = q.fullCost := by
  rw [fullCost, fullCost, h.side_eq, h.cellSpan_eq]

theorem rows_eq (h : p.Agree q) : p.rows = q.rows := by
  funext y y'
  rw [rows, rows, overlap, overlap, h.radius_eq, h.side_eq, h.target_height, h.source_height]

theorem columns_eq (h : p.Agree q) : p.columns = q.columns := by
  funext x x'
  rw [columns, columns, overlap, overlap, h.radius_eq, h.side_eq, h.target_width, h.source_width]

/-- Two open cells have the same squared difference. -/
theorem squaredDifference_eq (h : p.Agree q) {x y x' y' : Int}
    (hopen : (p.target.isOpen x y && p.source.isOpen x' y') = true) :
    p.target.squaredDifference p.source
        (p.target.cell x.toNat y.toNat) (p.source.cell x'.toNat y'.toNat) =
      q.target.squaredDifference q.source
        (q.target.cell x.toNat y.toNat) (q.source.cell x'.toNat y'.toNat) := by
  obtain ⟨htarget, hsource⟩ := Bool.and_eq_true_iff.mp hopen
  rw [← h.target.inside.cell_eq, ← h.source.inside.cell_eq]
  exact h.target.squaredDifference_eq h.source (Canvas.cell_of_isOpen htarget)
    (Canvas.cell_of_isOpen hsource)

/-- Holes cost the same whatever they hide. -/
theorem cellCost_eq (h : p.Agree q) : p.cellCost = q.cellCost := by
  funext x y x' y'
  rw [cellCost, cellCost, ← h.target.inside.isOpen_eq, ← h.source.inside.isOpen_eq, ← h.cellSpan_eq]
  split
  · rename_i hopen
    exact h.squaredDifference_eq hopen
  · rfl

theorem cost_eq (h : p.Agree q) : p.cost = q.cost := by
  funext x y x' y'
  simp only [cost, h.radius_eq, h.side_eq, h.cellSpan_eq, h.rows_eq, h.columns_eq, h.cellCost_eq]

/-- **A distance is a function of what is open.** -/
theorem distance_eq (h : p.Agree q) : p.distance = q.distance := by
  funext x y x' y'
  rw [distance, distance, h.cost_eq, h.fullCost_eq]

theorem cellFits_eq (h : p.Agree q) : p.cellFits = q.cellFits := by
  funext x y x' y'
  rw [cellFits, cellFits, ← h.target.inside.isOpen_eq, ← h.source.inside.isOpen_eq]
  cases hopen : p.target.isOpen x y && p.source.isOpen x' y' with
  | true => rw [h.squaredDifference_eq hopen]
  | false => rfl

theorem fits_eq (h : p.Agree q) : p.fits = q.fits := by
  funext x y x' y'
  simp only [fits, cellsFit, h.radius_eq, h.rows_eq, h.columns_eq, h.cellFits_eq, h.fullCost_eq,
    h.cost_eq]

theorem roomy_eq (h : p.Agree q) : p.roomy = q.roomy := by
  rw [roomy, roomy, h.fullCost_eq, h.target_depth, h.source_depth]

theorem contains_eq (h : p.Agree q) : p.source.contains = q.source.contains := by
  funext x y
  rw [Canvas.contains, Canvas.contains, h.source_width, h.source_height]

theorem offersFit_eq (h : p.Agree q) : p.offersFit = q.offersFit := by
  funext x y positions
  rw [offersFit, offersFit, h.contains_eq, h.fits_eq]

theorem offer_eq (h : p.Agree q) : p.offer = q.offer := by
  funext x y x' y' m
  rw [offer, offer, h.contains_eq, h.distance_eq]

theorem offers_eq (h : p.Agree q) : p.offers = q.offers := by
  funext x y m positions
  rw [offers, offers, h.offer_eq]

end Pairing.Agree

/-! ### Draws -/

namespace MatchField

variable {σ : Type}

section Draws

variable [WordSource σ] {p q : Pairing}

theorem drawPosition_congr (h : p.Agree q) :
    @drawPosition σ _ p = drawPosition q := by
  funext s
  rw [drawPosition, drawPosition, h.source_width, h.source_height]

/-- How often a seed is drawn again depends on distances, so it is the same for both. -/
theorem redraw_congr (h : p.Agree q) : @redraw σ _ p = redraw q := by
  funext x y n m s
  induction n generalizing m s with
  | zero => rfl
  | succ n ih => simp only [redraw, drawPosition_congr h, h.distance_eq, ih]

theorem redrawFits_congr (h : p.Agree q) : @redrawFits σ _ p = redrawFits q := by
  funext x y n m s
  induction n generalizing m s with
  | zero => rfl
  | succ n ih => simp only [redrawFits, drawPosition_congr h, h.distance_eq, h.fits_eq, ih]

theorem probes_congr (h : p.Agree q) : @probes σ _ p = probes q := by
  funext centre s
  have hreach : firstReach p = firstReach q := by
    rw [firstReach, firstReach, h.source_width]
  have hprobes (reaches : List Nat) (s : σ) :
      probesAt p centre reaches s = probesAt q centre reaches s := by
    induction reaches generalizing s with
    | nil => rfl
    | cons reach rest ih => simp only [probesAt, h.source_width, h.source_height, ih]
  rw [probes, probes, hreach, hprobes]

end Draws

/-! ### Fields -/

/-- The fields have the same entries and draws, and compare canvases that agree. -/
structure Agree (f g : MatchField σ) : Prop where
  pairing : f.toPairing.Agree g.toPairing
  entries_eq : f.entries = g.entries
  draws_eq : f.draws = g.draws

variable {f g : MatchField σ}

namespace Agree

theorem width_eq (h : f.Agree g) : f.width = g.width :=
  h.pairing.target_width

theorem height_eq (h : f.Agree g) : f.height = g.height :=
  h.pairing.target_height

theorem entry_eq (h : f.Agree g) : f.entry = g.entry := by
  funext p
  rw [entry, entry, h.entries_eq]

theorem column_eq (h : f.Agree g) : f.column = g.column := by
  funext p
  rw [column, column, h.width_eq]

theorem row_eq (h : f.Agree g) : f.row = g.row := by
  funext p
  rw [row, row, h.width_eq]

theorem put (h : f.Agree g) (p : Nat) (m : Match) (draws : σ) :
    (f.put p m draws).Agree (g.put p m draws) where
  pairing := h.pairing
  entries_eq := congrArg (·.setIfInBounds p m) h.entries_eq
  draws_eq := rfl

theorem withTarget (h : f.Agree g) {target target' : Canvas} (ht : target.Agree target') :
    ({ f with target } : MatchField σ).Agree { g with target := target' } where
  pairing := ⟨ht, h.pairing.source, h.pairing.radius_eq⟩
  entries_eq := h.entries_eq
  draws_eq := h.draws_eq

end Agree

/-- Visits that keep fields in agreement keep them so together. -/
theorem agree_foldl {step : MatchField σ → Nat → MatchField σ}
    (hstep : ∀ f g p, f.Agree g → (step f p).Agree (step g p)) (order : List Nat)
    (h : f.Agree g) : (order.foldl step f).Agree (order.foldl step g) := by
  induction order generalizing f g with
  | nil => exact h
  | cons p order ih => exact ih (hstep f g p h)

/-- A test that does not tell agreeing fields apart does not do so along the way. -/
theorem holdsAlong_congr {step : MatchField σ → Nat → MatchField σ}
    {test : MatchField σ → Nat → Bool}
    (hstep : ∀ f g p, f.Agree g → (step f p).Agree (step g p))
    (htest : ∀ f g p, f.Agree g → test f p = test g p) (order : List Nat) (h : f.Agree g) :
    holdsAlong step test order f = holdsAlong step test order g := by
  induction order generalizing f g with
  | nil => rfl
  | cons p order ih => rw [holdsAlong, holdsAlong, htest f g p h, ih (hstep f g p h)]

theorem agree_forEach {step : MatchField σ → Nat → MatchField σ}
    (hstep : ∀ f g p, f.Agree g → (step f p).Agree (step g p)) (h : f.Agree g) :
    (f.forEach step).Agree (g.forEach step) := by
  rw [forEach, forEach, ← h.entries_eq]
  exact agree_foldl hstep _ h

/-! ### Steps -/

theorem agree_remeasureAt (f g : MatchField σ) (p : Nat) (h : f.Agree g) :
    (f.remeasureAt p).Agree (g.remeasureAt p) := by
  rw [remeasureAt, remeasureAt, ← h.entry_eq, ← h.column_eq, ← h.row_eq, ← h.pairing.distance_eq,
    ← h.draws_eq]
  exact h.put _ _ _

theorem remeasureFits_congr (f g : MatchField σ) (p : Nat) (h : f.Agree g) :
    f.remeasureFits p = g.remeasureFits p := by
  rw [remeasureFits, remeasureFits, h.entry_eq, h.column_eq, h.row_eq, h.pairing.fits_eq]

variable [WordSource σ]

theorem agree_settleAt (f g : MatchField σ) (p : Nat) (h : f.Agree g) :
    (f.settleAt p).Agree (g.settleAt p) := by
  rw [settleAt, settleAt, ← h.entry_eq, ← h.column_eq, ← h.row_eq, ← h.pairing.distance_eq,
    ← h.draws_eq, ← redraw_congr h.pairing]
  exact h.put _ _ _

theorem settleFits_congr (f g : MatchField σ) (p : Nat) (h : f.Agree g) :
    f.settleFits p = g.settleFits p := by
  rw [settleFits, settleFits, h.entry_eq, h.column_eq, h.row_eq, h.pairing.distance_eq,
    h.pairing.fits_eq, h.draws_eq, redrawFits_congr h.pairing]

theorem agree_scatterAt (f g : MatchField σ) (p : Nat) (h : f.Agree g) :
    (f.scatterAt p).Agree (g.scatterAt p) := by
  rw [scatterAt, scatterAt, ← h.draws_eq, ← drawPosition_congr h.pairing]
  exact h.put _ _ _

omit [WordSource σ] in
theorem neighbours_congr (h : f.Agree g) : f.neighbours = g.neighbours := by
  funext x y dir
  rw [neighbours, neighbours, across, across, down, down, h.width_eq, h.height_eq, h.entry_eq]

omit [WordSource σ] in
theorem propagated_congr (h : f.Agree g) : f.propagated = g.propagated := by
  funext x y dir
  rw [propagated, propagated, h.pairing.offers_eq, h.entry_eq, h.width_eq, neighbours_congr h]

theorem agree_refine (h : f.Agree g) (x y : Nat) (dir : Int) :
    (f.refine x y dir).Agree (g.refine x y dir) := by
  rw [refine, refine, ← propagated_congr h, ← probes_congr h.pairing, ← h.draws_eq, ← h.width_eq,
    ← h.pairing.offers_eq]
  exact h.put _ _ _

theorem refineFits_congr (h : f.Agree g) : f.refineFits = g.refineFits := by
  funext x y dir
  rw [refineFits, refineFits, h.pairing.offersFit_eq, neighbours_congr h, propagated_congr h,
    probes_congr h.pairing, h.draws_eq]

theorem agree_forwardAt (f g : MatchField σ) (p : Nat) (h : f.Agree g) :
    (f.forwardAt p).Agree (g.forwardAt p) := by
  rw [forwardAt, forwardAt, ← h.entry_eq, ← h.column_eq, ← h.row_eq]
  split
  · exact agree_refine h _ _ _
  · exact h

theorem agree_backwardAt (f g : MatchField σ) (p : Nat) (h : f.Agree g) :
    (f.backwardAt p).Agree (g.backwardAt p) := by
  rw [backwardAt, backwardAt, ← h.column_eq, ← h.row_eq]
  exact agree_refine h _ _ _

theorem forwardFits_congr (f g : MatchField σ) (p : Nat) (h : f.Agree g) :
    f.forwardFits p = g.forwardFits p := by
  rw [forwardFits, forwardFits, h.entry_eq, h.column_eq, h.row_eq, refineFits_congr h]

theorem backwardFits_congr (f g : MatchField σ) (p : Nat) (h : f.Agree g) :
    f.backwardFits p = g.backwardFits p := by
  rw [backwardFits, backwardFits, h.column_eq, h.row_eq, refineFits_congr h]

/-! ### Operations -/

omit [WordSource σ] in
theorem agree_retarget (h : f.Agree g) {target target' : Canvas} (ht : target.Agree target') :
    (f.retarget target).Agree (g.retarget target') :=
  agree_forEach agree_remeasureAt (h.withTarget ht)

theorem agree_scatter (h : f.Agree g) : f.scatter.Agree g.scatter :=
  agree_forEach agree_settleAt (agree_forEach agree_scatterAt h)

theorem agree_pass (h : f.Agree g) : f.pass.Agree g.pass := by
  have hforward : f.forward.Agree g.forward := agree_forEach agree_forwardAt h
  rw [pass, pass, backward, backward, ← hforward.entries_eq]
  exact agree_foldl agree_backwardAt _ hforward

theorem agree_improve (h : f.Agree g) (n : Nat) : (f.improve n).Agree (g.improve n) := by
  induction n generalizing f g with
  | zero => exact h
  | succ n ih => exact ih (agree_pass h)

theorem passFits_congr (h : f.Agree g) : f.passFits = g.passFits := by
  have hforward : f.forward.Agree g.forward := agree_forEach agree_forwardAt h
  rw [passFits, passFits, h.entries_eq, holdsAlong_congr agree_forwardAt forwardFits_congr _ h,
    holdsAlong_congr agree_backwardAt backwardFits_congr _ hforward]

theorem improveFits_congr (h : f.Agree g) (n : Nat) : f.improveFits n = g.improveFits n := by
  induction n generalizing f g with
  | zero => rfl
  | succ n ih => rw [improveFits, improveFits, passFits_congr h, ih (agree_pass h)]

omit [WordSource σ] in
theorem agree_seeded (h : f.Agree g) {target target' source source' : Canvas}
    (ht : target.Agree target') (hs : source.Agree source') :
    (f.seeded target source).Agree (g.seeded target' source') where
  pairing := ⟨ht, hs, h.pairing.radius_eq⟩
  entries_eq := by
    have hw : target.width = target'.width := ht.shape.width_eq
    have hh : target.height = target'.height := ht.shape.height_eq
    have ha : target.area = target'.area := ht.shape.area_eq
    have hw' : source.width = source'.width := hs.shape.width_eq
    have hh' : source.height = source'.height := hs.shape.height_eq
    have hseed : f.seedFrom target source = g.seedFrom target' source' := by
      funext x y
      simp only [seedFrom, hw, hh, hw', hh', h.width_eq, h.height_eq, h.entry_eq,
        h.pairing.source_width, h.pairing.source_height]
    refine Array.ext (by simp [seeded, ha]) fun p _ _ => ?_
    simp only [seeded, Array.getElem_ofFn, hseed, hw]
  draws_eq := h.draws_eq

/-! ### Behind the checks -/

omit [WordSource σ] in
theorem alike_retarget? (h : f.Agree g) {target target' : Canvas} (ht : target.Agree target') :
    Alike Agree (f.retarget? target) (g.retarget? target') := by
  have hw : target.width = target'.width := ht.shape.width_eq
  have hh : target.height = target'.height := ht.shape.height_eq
  have hd : target.depth = target'.depth := ht.shape.depth_eq
  have hstart := h.withTarget ht
  have hsize : f.entries.size = g.entries.size := congrArg Array.size h.entries_eq
  have hcheck : (Pairing.roomy { f with target } || holdsAlong remeasureAt remeasureFits
        (List.range f.entries.size) { f with target }) =
      (Pairing.roomy { g with target := target' } || holdsAlong remeasureAt remeasureFits
        (List.range g.entries.size) { g with target := target' }) := by
    rw [hstart.pairing.roomy_eq, hsize,
      holdsAlong_congr agree_remeasureAt remeasureFits_congr _ hstart]
  rw [retarget?, retarget?, ← hw, ← hh, ← hd, ← h.width_eq, ← h.height_eq]
  refine .same _ fun _ => ?_
  dsimp only
  rw [hcheck, hsize]
  split
  · exact .ok hstart
  · exact .same _ fun _ => .same _ fun _ => .ok (agree_retarget h ht)

theorem checkSettle_congr (h : f.Agree g) : f.checkSettle = g.checkSettle := by
  rw [checkSettle, checkSettle, h.pairing.target_depth, h.pairing.roomy_eq, h.entries_eq,
    holdsAlong_congr agree_settleAt settleFits_congr _ h]

omit [WordSource σ] in
theorem checkSearch_congr (h : f.Agree g) : f.checkSearch = g.checkSearch := by
  rw [checkSearch, checkSearch, firstReach, firstReach, h.pairing.source_width,
    h.pairing.source_height, h.pairing.target_depth]

theorem alike_scatter? (h : f.Agree g) : Alike Agree f.scatter? g.scatter? := by
  rw [scatter?, scatter?, ← h.entries_eq, ← h.pairing.source_width, ← h.pairing.source_height,
    ← checkSettle_congr (agree_forEach agree_scatterAt h)]
  split
  · exact .ok h
  · exact .same _ fun _ => .same _ fun _ => .ok (agree_scatter h)

theorem alike_improve? (h : f.Agree g) (n : Nat) : Alike Agree (f.improve? n) (g.improve? n) := by
  rw [improve?, improve?, ← h.entries_eq, ← checkSearch_congr h, ← h.pairing.roomy_eq,
    ← improveFits_congr h]
  split
  · exact .ok h
  · exact .same _ fun _ => .same _ fun _ => .ok (agree_improve h n)

theorem alike_refine? (h : f.Agree g) (x y : Nat) (dir : Int) :
    Alike Agree (f.refine? x y dir) (g.refine? x y dir) := by
  rw [refine?, refine?, ← h.entries_eq, ← h.width_eq, ← h.height_eq, ← checkSearch_congr h,
    ← h.pairing.roomy_eq, ← refineFits_congr h]
  exact .same _ fun _ => .same _ fun _ => .same _ fun _ => .same _ fun _ => .same _ fun _ =>
    .ok (agree_refine h x y dir)

theorem alike_finer? (h : f.Agree g) {target target' source source' : Canvas}
    (ht : target.Agree target') (hs : source.Agree source') :
    Alike Agree (f.finer? target source) (g.finer? target' source') := by
  have hh : target.height = target'.height := ht.shape.height_eq
  have ha : target.area = target'.area := ht.shape.area_eq
  have hw' : source.width = source'.width := hs.shape.width_eq
  have hh' : source.height = source'.height := hs.shape.height_eq
  have hseeded := agree_seeded h ht hs
  rw [finer?, finer?, ← hh, ← ha, ← hw', ← hh', ← h.width_eq, ← h.height_eq,
    ← checkSettle_congr hseeded]
  refine .same _ fun _ => ?_
  split
  · exact .ok hseeded
  · exact .same _ fun _ => .same _ fun _ => .ok (agree_forEach agree_settleAt hseeded)

end MatchField

end Retouch
