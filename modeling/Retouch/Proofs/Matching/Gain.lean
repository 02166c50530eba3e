import Retouch.Proofs.Matching.Total
import Retouch.Random.Keystream

/-!
# Retouch — Matching — Strict gains

A search gives a match up only for one that is strictly nearer.  `Match.ImprovesTo` says so of one
match, `MatchField.ImprovesTo` of all matches of a field.  Both are transitive, so what one offer
does any number of offers do, and what one visit does the visits of a pass do, in either direction,
although later visits read entries that earlier ones have changed.

Nothing is asked of the field.  Its matches need not land in the source, and their distances need
not be those of the patches.  In particular a perfect match is never given up, and a field of
perfect matches goes through any number of passes as it is (`MatchField.search_keeps_or_gains`).
-/

namespace Retouch

/-! ### One match -/

/-- `m'` is the match `m`, or strictly nearer than `m`. -/
def Match.ImprovesTo (m m' : Match) : Prop :=
  m' = m ∨ m'.distance < m.distance

namespace Match.ImprovesTo

variable {m m' m'' : Match}

theorem refl (m : Match) : m.ImprovesTo m :=
  .inl rfl

theorem trans (h : m.ImprovesTo m') (h' : m'.ImprovesTo m'') : m.ImprovesTo m'' := by
  rcases h with rfl | h
  · exact h'
  · rcases h' with rfl | h'
    · exact .inr h
    · exact .inr (Nat.lt_trans h' h)

/-- There is nothing to be gained on a perfect match. -/
theorem eq_of_perfect (h : m.ImprovesTo m') (hm : m.distance = 0) : m' = m :=
  h.resolve_right fun hlt => Nat.not_lt_zero _ (hm ▸ hlt)

end Match.ImprovesTo

theorem Pairing.improvesTo_offers (p : Pairing) (x y : Nat) (m : Match)
    (positions : List (Int × Int)) : m.ImprovesTo (p.offers x y m positions) :=
  List.foldlRecOn positions _ (.refl m) fun m' hm' q _ =>
    hm'.trans (p.offer_eq_or_lt x y q.1 q.2 m')

/-! ### All matches of a field -/

namespace MatchField

variable {σ : Type}

/-- Writing to the entry of one pixel leaves those of all others. -/
theorem entry_put_of_ne (f : MatchField σ) {p q : Nat} (h : q ≠ p) (m : Match) (draws : σ) :
    (f.put p m draws).entry q = f.entry q := by
  simp only [entry, put, Array.getD_eq_getD_getElem?, Array.getElem?_setIfInBounds, Ne.symm h,
    if_false]

/-- Fields of the same size with the same matches have the same entries. -/
theorem entries_eq {f g : MatchField σ} (hsize : g.entries.size = f.entries.size)
    (h : ∀ p < f.entries.size, g.entry p = f.entry p) : g.entries = f.entries := by
  refine Array.ext hsize fun p hp hp' => ?_
  simpa [entry, hp, hp'] using h p hp'

/-- `g` has the frame of `f`, and the match of every pixel is the same or strictly nearer. -/
structure ImprovesTo (f g : MatchField σ) : Prop where
  sameFrame : SameFrame f g
  entry : ∀ p, (f.entry p).ImprovesTo (g.entry p)

namespace ImprovesTo

variable {f g h : MatchField σ}

theorem refl (f : MatchField σ) : f.ImprovesTo f :=
  ⟨.refl f, fun _ => .refl _⟩

theorem trans (hfg : f.ImprovesTo g) (hgh : g.ImprovesTo h) : f.ImprovesTo h :=
  ⟨hfg.sameFrame.trans hgh.sameFrame, fun p => (hfg.entry p).trans (hgh.entry p)⟩

/-- Perfect matches stay. -/
theorem entry_eq (hfg : f.ImprovesTo g) {p : Nat} (hp : (f.entry p).distance = 0) :
    g.entry p = f.entry p :=
  (hfg.entry p).eq_of_perfect hp

/-- A field of perfect matches stays. -/
theorem entries_eq (hfg : f.ImprovesTo g)
    (hperfect : ∀ p < f.entries.size, (f.entry p).distance = 0) : g.entries = f.entries :=
  MatchField.entries_eq hfg.sameFrame.size_eq fun p hp => hfg.entry_eq (hperfect p hp)

end ImprovesTo

theorem improvesTo_put {f : MatchField σ} {p : Nat} {m : Match} (h : (f.entry p).ImprovesTo m)
    (draws : σ) : f.ImprovesTo (f.put p m draws) := by
  refine ⟨sameFrame_put f p m draws, fun q => ?_⟩
  by_cases hq : q = p
  · subst hq
    by_cases hp : q < f.entries.size
    · rwa [entry_put hp, if_pos rfl]
    · -- There is no such entry to be written.
      have hput : (f.put q m draws).entries = f.entries :=
        Array.setIfInBounds_eq_of_size_le (Nat.not_lt.mp hp)
      exact .inl (congrArg (·.getD q .unset) hput)
  · exact .inl (f.entry_put_of_ne hq m draws)

/-- Visits that improve a field, wherever they are made, improve it together. -/
theorem improvesTo_foldl {step : MatchField σ → Nat → MatchField σ}
    (visit : ∀ (f : MatchField σ) p, f.ImprovesTo (step f p)) (order : List Nat)
    (f : MatchField σ) :
    f.ImprovesTo (order.foldl step f) := by
  induction order generalizing f with
  | nil => exact .refl f
  | cons p order ih => exact (visit f p).trans (ih (step f p))

/-! ### Searching -/

variable [WordSource σ]

theorem improvesTo_refine (f : MatchField σ) (x y : Nat) (dir : Int) :
    f.ImprovesTo (f.refine x y dir) := by
  have hpropagated := f.toPairing.improvesTo_offers x y (f.entry (y * f.width + x))
    (f.neighbours x y dir)
  exact improvesTo_put (hpropagated.trans (f.toPairing.improvesTo_offers x y _ _)) _

/-- Refining one pixel leaves the matches of all others. -/
theorem entry_refine_of_ne (f : MatchField σ) {x y q : Nat} (h : q ≠ y * f.width + x)
    (dir : Int) : (f.refine x y dir).entry q = f.entry q :=
  f.entry_put_of_ne h _ _

theorem improvesTo_forwardAt (f : MatchField σ) (p : Nat) : f.ImprovesTo (f.forwardAt p) := by
  unfold forwardAt
  split
  · exact improvesTo_refine f _ _ _
  · exact .refl f

/-- A pass improves: on the way forward, and on the way back, which visits perfect matches too. -/
theorem improvesTo_pass (f : MatchField σ) : f.ImprovesTo f.pass :=
  (improvesTo_foldl improvesTo_forwardAt _ f).trans
    (improvesTo_foldl (fun g p => improvesTo_refine g (g.column p) (g.row p) (-1)) _ f.forward)

theorem improvesTo_improve (f : MatchField σ) (n : Nat) : f.ImprovesTo (f.improve n) := by
  induction n generalizing f with
  | zero => exact .refl f
  | succ n ih => exact (improvesTo_pass f).trans (ih f.pass)

/-! ### What a search keeps -/

/-- **A match is given up for a strict gain only.**  Let a field hold any matches, at any distances,
and draw anything.  After a number of passes every match is the one before or strictly nearer;
perfect matches are the ones before, and a field of perfect matches has the same entries.  Refining
a pixel, in whatever direction, is like that, and leaves the matches of all other pixels. -/
theorem search_keeps_or_gains (f : MatchField σ) :
    (∀ passes g, f.improve? passes = .ok g →
      (∀ p, g.entry p = f.entry p ∨ (g.entry p).distance < (f.entry p).distance) ∧
      (∀ p, (f.entry p).distance = 0 → g.entry p = f.entry p) ∧
      ((∀ p < f.entries.size, (f.entry p).distance = 0) → g.entries = f.entries)) ∧
    ∀ x y dir g, f.refine? x y dir = .ok g →
      (∀ p, g.entry p = f.entry p ∨ (g.entry p).distance < (f.entry p).distance) ∧
      ∀ p, p ≠ y * f.width + x → g.entry p = f.entry p := by
  constructor
  · intro passes g hg
    obtain rfl := eq_improve_of_improve? hg
    have himproves := improvesTo_improve f passes
    exact ⟨himproves.entry, fun _ => himproves.entry_eq, himproves.entries_eq⟩
  · intro x y dir g hg
    obtain rfl := eq_refine_of_refine? hg
    exact ⟨(improvesTo_refine f x y dir).entry, fun p hp => entry_refine_of_ne f hp dir⟩

/-- Two by two black pixels without a hole. -/
def blackCanvas : Canvas :=
  .ofParts (.blank 2 2 .gray) (.blank 2 2 .gray)

/-- A field between them with the given matches. -/
def blackField (entries : Array Match) : MatchField Keystream :=
  ⟨⟨blackCanvas, blackCanvas, 1⟩, entries, Keystream.ofSeed 7⟩

/-- Matches that land nowhere are given up like any other: those said to be perfect never. -/
theorem search_keeps_or_gains_astray :
    (∃ g, (blackField #[⟨9, 9, 0⟩, ⟨9, 9, 65535⟩, ⟨0, 0, 3⟩, ⟨9, 9, 0⟩]).improve? 2 = .ok g ∧
      g.entry 0 = ⟨9, 9, 0⟩ ∧ (g.entry 2 = ⟨0, 0, 3⟩ ∨ (g.entry 2).distance < 3)) ∧
    (∃ g, (blackField (.replicate 4 ⟨9, 9, 0⟩)).improve? 2 = .ok g ∧
      g.entries = .replicate 4 ⟨9, 9, 0⟩) ∧
    ∃ g, (blackField (.replicate 4 .unset)).refine? 1 1 (-3) = .ok g ∧ g.entry 2 = .unset := by
  have hside : 0 < blackCanvas.width ∧ 0 < blackCanvas.height ∧ 0 < blackCanvas.depth := by decide
  have hroomy : (Pairing.mk blackCanvas blackCanvas 1).roomy = true := by decide
  have hworkable (entries : Array Match) (hsize : entries.size = 4) :
      (blackField entries).Workable :=
    ⟨hside.1, hside.2.1, hside.2.2, hside.1, hside.2.1, hsize, hroomy⟩
  refine ⟨?_, ?_, ?_⟩
  · have hg := improve?_eq_ok (hworkable #[⟨9, 9, 0⟩, ⟨9, 9, 65535⟩, ⟨0, 0, 3⟩, ⟨9, 9, 0⟩] rfl) 2
    obtain ⟨hentry, hperfect, -⟩ := (search_keeps_or_gains _).1 2 _ hg
    exact ⟨_, hg, hperfect 0 rfl, hentry 2⟩
  · have hg := improve?_eq_ok (hworkable (.replicate 4 ⟨9, 9, 0⟩) rfl) 2
    exact ⟨_, hg, ((search_keeps_or_gains _).1 2 _ hg).2.2 (by decide)⟩
  · have hg : (blackField (.replicate 4 .unset)).refine? 1 1 (-3) = .ok _ :=
      refine?_eq_ok (hworkable (.replicate 4 .unset) rfl) (by decide) (by decide) (by decide)
    exact ⟨_, hg, ((search_keeps_or_gains _).2 1 1 (-3) _ hg).2 2 (by decide)⟩

end MatchField

end Retouch
