import Mathlib.Tactic.Choose
import Retouch.Proofs.Matching.Gain
import Retouch.Proofs.Matching.Total

/-!
# Retouch — Matching — Settled seeds

The seeds of a field are positions of any distance.  Settling goes through the pixels row by row.
A pixel whose seed has a valid cell keeps it, and nothing is drawn for it.  For any other pixel
positions are drawn until one has a valid cell, or until `redraws` positions have been drawn: then
the last of them stays, at the largest distance (`SettledBy`).

So a pixel depends on its seed and on where the stream of draws has come to, and on nothing else
that became of the other pixels (`SettledBy.unique`).  Over a whole field, the stream has come to
where the positions drawn for the pixels before have brought it (`Settled`), whether the seeds are
positions at random or come from a coarser field (`seeds_settle`).
-/

namespace Retouch

namespace Pairing

/-- The match of `(x, y)` with a source position, at its distance. -/
def measured (p : Pairing) (x y : Nat) (q : Nat × Nat) : Match :=
  ⟨q.1, q.2, p.distance x y q.1 q.2⟩

theorem distance_measured_le (p : Pairing) (x y : Nat) (q : Nat × Nat) :
    (p.measured x y q).distance ≤ maxDistance :=
  p.distance_le x y q.1 q.2

end Pairing

namespace MatchField

variable {σ : Type} [WordSource σ]

/-! ### Positions from the stream -/

/-- The draws when `n` source positions have been drawn. -/
def drawsPast (p : Pairing) : Nat → σ → σ
  | 0, s => s
  | n + 1, s => drawsPast p n (drawPosition p s).2

theorem drawsPast_add (p : Pairing) (m n : Nat) (s : σ) :
    drawsPast p (m + n) s = drawsPast p n (drawsPast p m s) := by
  induction m generalizing s with
  | zero => rw [Nat.zero_add, drawsPast]
  | succ m ih => rw [Nat.succ_add, drawsPast, drawsPast, ih]

/-- Attempt number `n` at a match for `(x, y)`: the seed first, then one drawn position after the
other. -/
def attempt (p : Pairing) (x y : Nat) (seed : Nat × Nat) (s : σ) : Nat → Match
  | 0 => p.measured x y seed
  | n + 1 => p.measured x y (drawPosition p (drawsPast p n s)).1

theorem attempt_zero (p : Pairing) (x y : Nat) (seed : Nat × Nat) (s : σ) :
    attempt p x y seed s 0 = p.measured x y seed :=
  rfl

/-- After one drawn position the others are attempted as if it had been the seed. -/
theorem attempt_succ (p : Pairing) (x y : Nat) (seed : Nat × Nat) (s : σ) (n : Nat) :
    attempt p x y seed s (n + 1) =
      attempt p x y (drawPosition p s).1 (drawPosition p s).2 n := by
  cases n <;> rfl

/-! ### One pixel -/

/-- A pixel with a seed gets the match `m` after `n` drawn positions, of `budget` that may be drawn:
all attempts before have failed, and the last one has not, unless the budget is spent. -/
structure SettledBy (p : Pairing) (x y : Nat) (seed : Nat × Nat) (s : σ) (budget n : Nat)
    (m : Match) : Prop where
  count_le : n ≤ budget
  match_eq : m = attempt p x y seed s n
  failed : ∀ i < n, (attempt p x y seed s i).distance = maxDistance
  succeeds_or_spent : m.distance < maxDistance ∨ n = budget

namespace SettledBy

variable {p : Pairing} {x y : Nat} {seed : Nat × Nat} {s : σ} {budget n n' : Nat} {m m' : Match}

/-- A seed with a valid cell is kept, and nothing is drawn. -/
theorem keeps_seed (h : SettledBy p x y seed s budget n m)
    (hseed : (p.measured x y seed).distance < maxDistance) :
    n = 0 ∧ m = p.measured x y seed := by
  have hn : n = 0 := Nat.eq_zero_of_not_pos fun hpos => Nat.ne_of_lt hseed (h.failed 0 hpos)
  subst hn
  exact ⟨rfl, h.match_eq⟩

/-- A match at the largest distance has spent the budget, and all attempts have failed. -/
theorem spent (h : SettledBy p x y seed s budget n m) (hm : m.distance = maxDistance) :
    n = budget ∧ ∀ i ≤ budget, (attempt p x y seed s i).distance = maxDistance := by
  obtain rfl : n = budget :=
    h.succeeds_or_spent.resolve_left (Nat.not_lt.mpr (Nat.le_of_eq hm.symm))
  refine ⟨rfl, fun i hi => ?_⟩
  rcases Nat.lt_or_eq_of_le hi with hi | rfl
  · exact h.failed i hi
  · rw [← h.match_eq, hm]

theorem count_le_count (h : SettledBy p x y seed s budget n m)
    (h' : SettledBy p x y seed s budget n' m') : n ≤ n' := by
  refine Nat.le_of_not_lt fun hlt => ?_
  have hfailed : m'.distance = maxDistance := by
    rw [h'.match_eq]
    exact h.failed n' hlt
  have hspent := (h'.spent hfailed).1
  exact Nat.not_lt.mpr (hspent ▸ h.count_le) hlt

/-- What a pixel gets depends on its seed and the stream only. -/
theorem unique (h : SettledBy p x y seed s budget n m)
    (h' : SettledBy p x y seed s budget n' m') : n = n' ∧ m = m' := by
  obtain rfl : n = n' := Nat.le_antisymm (h.count_le_count h') (h'.count_le_count h)
  exact ⟨rfl, h.match_eq.trans h'.match_eq.symm⟩

end SettledBy

/-- Drawing again settles a pixel, and moves the draws on by the positions that it takes. -/
theorem exists_settledBy_redraw (p : Pairing) (x y : Nat) (seed : Nat × Nat) (s : σ)
    (budget : Nat) : ∃ n, SettledBy p x y seed s budget n
      (redraw p x y budget (p.measured x y seed) s).1 ∧
        (redraw p x y budget (p.measured x y seed) s).2 = drawsPast p n s := by
  induction budget generalizing seed s with
  | zero => exact ⟨0, ⟨Nat.le_refl 0, rfl, by simp, .inr rfl⟩, rfl⟩
  | succ budget ih =>
    rw [redraw]
    by_cases hseed : (p.measured x y seed).distance = maxDistance
    · rw [if_pos hseed]
      obtain ⟨n, hn, hdraws⟩ := ih (drawPosition p s).1 (drawPosition p s).2
      refine ⟨n + 1, ⟨Nat.succ_le_succ hn.count_le, ?_, fun i hi => ?_, ?_⟩, hdraws⟩
      · rw [attempt_succ]
        exact hn.match_eq
      · -- The first attempt is the seed, which has failed.
        cases i with
        | zero => exact hseed
        | succ i =>
          rw [attempt_succ]
          exact hn.failed i (Nat.lt_of_succ_lt_succ hi)
      · exact hn.succeeds_or_spent.imp_right (congrArg (· + 1))
    · rw [if_neg hseed]
      have hlt := Nat.lt_of_le_of_ne (p.distance_measured_le x y seed) hseed
      exact ⟨0, ⟨Nat.zero_le _, rfl, by simp, .inl hlt⟩, rfl⟩

/-! ### The whole field -/

/-- The position of a pixel's entry. -/
def seedAt (f : MatchField σ) (q : Nat) : Nat × Nat :=
  ((f.entry q).x, (f.entry q).y)

/-- Where the stream of draws has come to at pixel `q`, when `counts` says how many positions are
drawn for each pixel. -/
def streamAt (seeds : MatchField σ) (counts : Nat → Nat) (q : Nat) : σ :=
  drawsPast seeds.toPairing (Sum.below q counts) seeds.draws

/-- `g` is the field with the given seeds after they have been settled, one pixel after the other,
with a budget of so many positions for each. -/
structure Settled (seeds : MatchField σ) (budget : Nat) (counts : Nat → Nat) (g : MatchField σ) :
    Prop where
  sameFrame : SameFrame seeds g
  settledBy : ∀ q < seeds.entries.size,
    SettledBy seeds.toPairing (seeds.column q) (seeds.row q) (seeds.seedAt q)
      (seeds.streamAt counts q) budget (counts q) (g.entry q)
  draws_eq : g.draws = seeds.streamAt counts seeds.entries.size

/-- A visit settles its pixel and no other. -/
theorem exists_settledBy_settleAt (f : MatchField σ) {q : Nat} (hq : q < f.entries.size) :
    ∃ n, SettledBy f.toPairing (f.column q) (f.row q) (f.seedAt q) f.draws redraws n
      ((f.settleAt q).entry q) ∧ (f.settleAt q).draws = drawsPast f.toPairing n f.draws := by
  obtain ⟨n, hn, hdraws⟩ :=
    exists_settledBy_redraw f.toPairing (f.column q) (f.row q) (f.seedAt q) f.draws redraws
  refine ⟨n, ?_, hdraws⟩
  rw [settleAt, entry_put hq, if_pos rfl]
  exact hn

theorem entry_settleAt_of_ne (f : MatchField σ) {q r : Nat} (h : r ≠ q) :
    (f.settleAt q).entry r = f.entry r :=
  f.entry_put_of_ne h _ _

/-- The field when the pixels below `n` have been visited. -/
def settledTo (f : MatchField σ) (n : Nat) : MatchField σ :=
  (List.range n).foldl settleAt f

theorem settledTo_succ (f : MatchField σ) (n : Nat) :
    f.settledTo (n + 1) = (f.settledTo n).settleAt n := by
  rw [settledTo, List.range_succ, List.foldl_append]
  rfl

theorem sameFrame_settledTo (f : MatchField σ) (n : Nat) : SameFrame f (f.settledTo n) :=
  sameFrame_foldl (fun g p => sameFrame_put g p _ _) _ f

/-- Visits do not touch the pixels to come. -/
theorem entry_settledTo_of_le (f : MatchField σ) {q n : Nat} (h : n ≤ q) :
    (f.settledTo n).entry q = f.entry q := by
  induction n with
  | zero => rfl
  | succ n ih => rw [settledTo_succ, entry_settleAt_of_ne _ (Nat.ne_of_gt h), ih (Nat.le_of_lt h)]

/-- Visits do not touch the pixels behind them. -/
theorem entry_settledTo_of_lt (f : MatchField σ) {q n : Nat} (h : q < n) :
    (f.settledTo n).entry q = (f.settledTo (q + 1)).entry q := by
  induction h with
  | refl => rfl
  | step h ih => rw [settledTo_succ, entry_settleAt_of_ne _ (Nat.ne_of_lt h), ih]

theorem exists_settled (f : MatchField σ) : ∃ counts, Settled f redraws counts f.settle := by
  have hvisit (q : Nat) : ∃ n, q < f.entries.size →
      SettledBy f.toPairing (f.column q) (f.row q) (f.seedAt q) (f.settledTo q).draws redraws n
        (f.settle.entry q) ∧
      (f.settledTo (q + 1)).draws = drawsPast f.toPairing n (f.settledTo q).draws := by
    by_cases hq : q < f.entries.size
    · have hsame := f.sameFrame_settledTo q
      obtain ⟨n, hn, hdraws⟩ := exists_settledBy_settleAt (f.settledTo q) (hsame.size_eq ▸ hq)
      rw [column, row, hsame.width_eq, seedAt, f.entry_settledTo_of_le (Nat.le_refl q),
        hsame.toPairing_eq, ← settledTo_succ, ← f.entry_settledTo_of_lt hq] at hn
      rw [hsame.toPairing_eq, ← settledTo_succ] at hdraws
      exact ⟨n, fun _ => ⟨hn, hdraws⟩⟩
    · exact ⟨0, fun h => absurd h hq⟩
  choose counts hcounts using hvisit
  -- The stream has come to where the counts say.
  have hstream (n : Nat) (hn : n ≤ f.entries.size) :
      (f.settledTo n).draws = f.streamAt counts n := by
    induction n with
    | zero => rfl
    | succ n ih =>
      rw [(hcounts n hn).2, ih (Nat.le_of_succ_le hn), streamAt, streamAt, ← drawsPast_add,
        Sum.below_succ]
  refine ⟨counts, sameFrame_settle f, fun q hq => ?_, hstream _ (Nat.le_refl _)⟩
  rw [← hstream q (Nat.le_of_lt hq)]
  exact (hcounts q hq).1

/-! ### Seeds of both kinds -/

/-- `g` has been made from `seeds`: from positions at random, or from those of a coarser field. -/
inductive Seeding : MatchField σ → MatchField σ → Prop
  | scatter {f g : MatchField σ} (h : f.scatter? = .ok g) : Seeding (f.forEach scatterAt) g
  | finer {coarse g : MatchField σ} {target source : Canvas}
      (h : coarse.finer? target source = .ok g) : Seeding (coarse.seeded target source) g

theorem Seeding.eq_settle {seeds g : MatchField σ} (h : Seeding seeds g) : g = seeds.settle := by
  cases h with
  | scatter h => exact eq_scatter_of_scatter? h
  | finer h => exact eq_finer_of_finer? h

/-- **Seeds are drawn again only where they have to be.**  Seeding ends for workable fields.  For
every pixel some number of positions has then been drawn, at most 20, and the stream moves on by
these positions only.  A pixel whose seed is nearer than the largest distance keeps it, and nothing
is drawn for it.  Otherwise it gets the first drawn position that is nearer; it is left at the
largest distance only when the seed and all 20 positions are that far, and then it has the last of
them.  What a pixel gets is the same in any other field over the same canvases in which its seed is
the same and the stream has come to the same place. -/
theorem seeds_settle :
    (∀ f : MatchField σ, f.Workable → ∃ g, f.scatter? = .ok g) ∧
    (∀ (coarse : MatchField σ) (target source : Canvas), coarse.Workable →
      0 < target.width ∧ 0 < target.height → 0 < source.width ∧ 0 < source.height →
      target.depth = coarse.target.depth → source.depth = coarse.source.depth →
      ∃ g, coarse.finer? target source = .ok g) ∧
    ∀ seeds g : MatchField σ, Seeding seeds g → ∃ counts, Settled seeds 20 counts g ∧
      (∀ q < seeds.entries.size,
        let (x, y) := (seeds.column q, seeds.row q)
        let tried := attempt seeds.toPairing x y (seeds.seedAt q) (seeds.streamAt counts q)
        (counts q ≤ 20 ∧ g.entry q = tried (counts q) ∧
          ∀ i < counts q, (tried i).distance = maxDistance) ∧
        ((tried 0).distance < maxDistance → counts q = 0 ∧ g.entry q = tried 0) ∧
        ((g.entry q).distance = maxDistance →
          counts q = 20 ∧ g.entry q = tried 20 ∧ ∀ i ≤ 20, (tried i).distance = maxDistance)) ∧
      ∀ seeds' counts' g', Settled seeds' 20 counts' g' → seeds'.toPairing = seeds.toPairing →
        ∀ q < seeds.entries.size, q < seeds'.entries.size →
          seeds'.seedAt q = seeds.seedAt q →
          seeds'.streamAt counts' q = seeds.streamAt counts q →
          counts' q = counts q ∧ g'.entry q = g.entry q := by
  refine ⟨fun f hf => ⟨_, scatter?_eq_ok hf⟩, fun coarse target source hf ht hs hd hd' =>
    ⟨_, finer?_eq_ok hf ht hs hd hd'⟩, fun seeds g hg => ?_⟩
  obtain rfl := hg.eq_settle
  obtain ⟨counts, hsettled⟩ := exists_settled seeds
  have hbudget : redraws = 20 := rfl
  rw [hbudget] at hsettled
  refine ⟨counts, hsettled, fun q hq => ?_, ?_⟩
  · have hq := hsettled.settledBy q hq
    refine ⟨⟨hq.count_le, hq.match_eq, hq.failed⟩, hq.keeps_seed, fun hfar => ?_⟩
    obtain ⟨hcount, hfailed⟩ := hq.spent hfar
    exact ⟨hcount, hcount ▸ hq.match_eq, hfailed⟩
  · intro seeds' counts' g' hsettled' hpairing q hq hq' hseed hstream
    have hthis := hsettled.settledBy q hq
    have hother := hsettled'.settledBy q hq'
    rw [column, row, width, hpairing, hseed, hstream] at hother
    exact hother.unique hthis

/-- A row of four cells, the first two of them holes. -/
def shadedRow : Canvas :=
  .ofParts (.blank 4 1 .gray) (.ofHoles 4 1 fun x _ => x ≤ 1)

/-- A row of six cells, all but the first of them holes. -/
def slitRow : Canvas :=
  .ofParts (.blank 6 1 .gray) (.ofHoles 6 1 fun x _ => x != 0)

/-- Seeds of a small field, at random and then from it for a larger one.  The first pixel cannot be
matched: its patch is hidden, and all 20 positions are drawn for it.  The third keeps its seed, and
the last gets a position that has been drawn again. -/
theorem seeds_settle_small :
    let large := Canvas.ofParts (.blank 4 4 .gray) (.blank 4 4 .gray)
    let f : MatchField Keystream := start ⟨shadedRow, slitRow, 1⟩ (Keystream.ofSeed 7)
    ∃ coarse g counts counts', f.scatter? = .ok coarse ∧ coarse.finer? large large = .ok g ∧
      Settled (f.forEach scatterAt) 20 counts coarse ∧
      (counts 0 = 20 ∧ (coarse.entry 0).distance = maxDistance) ∧
      (counts 2 = 0 ∧ (coarse.entry 2).distance < maxDistance) ∧
      (0 < counts 3 ∧ (coarse.entry 3).distance < maxDistance) ∧
      Settled (coarse.seeded large large) 20 counts' g := by
  intro large f
  have hf : f.Workable :=
    ⟨by decide, by decide, by decide, by decide, by decide, Array.size_replicate, by decide⟩
  obtain ⟨hscatters, hfiner, hseeds⟩ := @seeds_settle Keystream _
  obtain ⟨coarse, hcoarse⟩ := hscatters f hf
  have hsame := sameFrame_of_scatter? hcoarse
  have hlarge : 0 < large.width ∧ 0 < large.height := by decide
  have htarget : large.depth = coarse.target.depth := by rw [hsame.target_eq]; decide
  have hsource : large.depth = coarse.source.depth := by rw [hsame.source_eq]; decide
  obtain ⟨g, hg⟩ := hfiner coarse large large (hf.sameFrame hsame) hlarge hlarge htarget hsource
  obtain ⟨counts, hsettled, hpixels, -⟩ := hseeds _ _ (.scatter hcoarse)
  obtain ⟨counts', hsettled', -⟩ := hseeds _ _ (.finer hg)
  have hsize : (f.forEach scatterAt).entries.size = 4 :=
    (sameFrame_foldl (fun g p => sameFrame_put g p _ _) _ f).size_eq
  have hcoarse_eq : coarse = (f.forEach scatterAt).settle := (Seeding.scatter hcoarse).eq_settle
  have hthird : ((f.forEach scatterAt).toPairing.measured ((f.forEach scatterAt).column 2)
      ((f.forEach scatterAt).row 2) ((f.forEach scatterAt).seedAt 2)).distance < maxDistance := by
    decide +kernel
  have hfourth : ((f.forEach scatterAt).toPairing.measured ((f.forEach scatterAt).column 3)
      ((f.forEach scatterAt).row 3) ((f.forEach scatterAt).seedAt 3)).distance = maxDistance := by
    decide +kernel
  obtain ⟨hfirst, hlast⟩ : ((f.forEach scatterAt).settle.entry 0).distance = maxDistance ∧
      ((f.forEach scatterAt).settle.entry 3).distance < maxDistance := by
    decide +kernel
  rw [← hcoarse_eq] at hfirst hlast
  generalize f.forEach scatterAt = seeds at *
  obtain ⟨-, -, hspent⟩ := hpixels 0 (by omega)
  obtain ⟨-, hkeeps, -⟩ := hpixels 2 (by omega)
  obtain ⟨⟨-, hentry, -⟩, -, -⟩ := hpixels 3 (by omega)
  rw [attempt_zero] at hkeeps
  obtain ⟨hcount, hkept⟩ := hkeeps hthird
  refine ⟨coarse, g, counts, counts', hcoarse, hg, hsettled, ⟨(hspent hfirst).1, hfirst⟩,
    ⟨hcount, hkept ▸ hthird⟩, ⟨Nat.pos_of_ne_zero fun hnone => ?_, hlast⟩, hsettled'⟩
  rw [hentry, hnone, attempt_zero, hfourth] at hlast
  exact Nat.lt_irrefl _ hlast

end MatchField

end Retouch
