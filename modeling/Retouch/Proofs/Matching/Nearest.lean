import Mathlib.Algebra.Group.Nat.Defs
import Mathlib.Data.List.Forall2
import Mathlib.Data.Nat.Log
import Retouch.Proofs.Matching.Exact

/-!
# Retouch — Matching — The first of the nearest

Refining a pixel goes through a list of candidates: its match so far, what two neighbours suggest,
and then positions drawn at random around the best of these.  Offers are taken one by one, each
only when it is strictly nearer than the match so far, so that what is left in the end is the first
of the nearest candidates (`Match.FirstNearest`): one more offer keeps it so
(`Pairing.firstNearest_offer`), hence so do all (`Pairing.firstNearest_offers`).

`refine?_firstNearest` spells the list out.  A neighbour that does not exist, or whose shifted match
falls off the source, is no candidate.  The random candidates lie around the first of the nearest
among the others, which stays their centre while the match moves on; their reaches are the width of
the source and its halves down to one, and every one of them lies in the source.  Nothing within the
reaches is left out: there are words that lead to any offsets (`exists_probesAt_eq`).
-/

namespace Retouch

/-! ### Candidates -/

/-- `m` is the first of the nearest candidates: those before it are farther, and none of those
after it is nearer. -/
def Match.FirstNearest (candidates : List Match) (m : Match) : Prop :=
  ∃ before after, candidates = before ++ m :: after ∧
    (∀ n ∈ before, m.distance < n.distance) ∧ ∀ n ∈ after, m.distance ≤ n.distance

namespace Match.FirstNearest

variable {candidates : List Match} {m n : Match}

theorem singleton (m : Match) : FirstNearest [m] m :=
  ⟨[], [], rfl, by simp, by simp⟩

theorem distance_le (h : FirstNearest candidates m) (hn : n ∈ candidates) :
    m.distance ≤ n.distance := by
  obtain ⟨before, after, rfl, hbefore, hafter⟩ := h
  rcases List.mem_append.mp hn with hn | hn
  · exact Nat.le_of_lt (hbefore n hn)
  · rcases List.mem_cons.mp hn with rfl | hn
    · exact Nat.le_refl _
    · exact hafter n hn

/-- A further candidate that is not nearer changes nothing. -/
theorem append_of_le (h : FirstNearest candidates m) (hn : m.distance ≤ n.distance) :
    FirstNearest (candidates ++ [n]) m := by
  obtain ⟨before, after, rfl, hbefore, hafter⟩ := h
  refine ⟨before, after ++ [n], by simp, hbefore, fun k hk => ?_⟩
  rcases List.mem_append.mp hk with hk | hk
  · exact hafter k hk
  · obtain rfl := List.mem_singleton.mp hk
    exact hn

/-- A further candidate that is nearer takes the place. -/
theorem append_of_lt (h : FirstNearest candidates m) (hn : n.distance < m.distance) :
    FirstNearest (candidates ++ [n]) n :=
  ⟨candidates, [], rfl, fun _ hk => Nat.lt_of_lt_of_le hn (h.distance_le hk), by simp⟩

end Match.FirstNearest

namespace Pairing

/-- The match of `(x, y)` with a source position. -/
def matchAt (p : Pairing) (x y : Nat) (q : Int × Int) : Match :=
  ⟨q.1.toNat, q.2.toNat, p.distance x y q.1 q.2⟩

/-- The candidate that an offered position is, if it lies in the source. -/
def candidate? (p : Pairing) (x y : Nat) (q : Int × Int) : Option Match :=
  if p.source.contains q.1 q.2 then some (p.matchAt x y q) else none

variable {p : Pairing} {x y : Nat} {m : Match} {candidates : List Match}

theorem firstNearest_offer (h : Match.FirstNearest candidates m) (q : Int × Int) :
    Match.FirstNearest (candidates ++ (p.candidate? x y q).toList) (p.offer x y q.1 q.2 m) := by
  unfold candidate? Pairing.offer
  by_cases hsource : p.source.contains q.1 q.2 = true
  · simp only [hsource, if_true, Option.toList_some]
    by_cases hnearer : p.distance x y q.1 q.2 < m.distance
    · simp only [hnearer, if_true]
      exact h.append_of_lt hnearer
    · simp only [hnearer, if_false]
      exact h.append_of_le (Nat.not_lt.mp hnearer)
  · simpa [hsource] using h

/-- Offers, one after the other, leave the first of the nearest. -/
theorem firstNearest_offers (h : Match.FirstNearest candidates m) (positions : List (Int × Int)) :
    Match.FirstNearest (candidates ++ positions.filterMap (p.candidate? x y))
      (p.offers x y m positions) := by
  induction positions generalizing candidates m with
  | nil => simpa [offers] using h
  | cons q positions ih =>
    have hstep := ih (firstNearest_offer (p := p) (x := x) (y := y) h q)
    have hcons : (q :: positions).filterMap (p.candidate? x y) =
        (p.candidate? x y q).toList ++ positions.filterMap (p.candidate? x y) := by
      rw [List.filterMap_cons]
      cases p.candidate? x y q <;> rfl
    rwa [List.append_assoc, ← hcons] at hstep

end Pairing

namespace MatchField

variable {σ : Type}

/-! ### What neighbours suggest -/

/-- What the neighbour `(dx, dy)` before `(x, y)` suggests: its match shifted by as much, if there
is such a neighbour and the source has such a position. -/
def suggestion? (f : MatchField σ) (x y : Nat) (dx dy : Int) : Option Match :=
  if f.target.contains (x - dx) (y - dy) then
    let n := f.entry (f.target.cell (x - dx).toNat (y - dy).toNat)
    f.candidate? x y (n.x + dx, n.y + dy)
  else
    none

/-- The candidates before any is drawn: the match so far and what the neighbours suggest. -/
def suggested (f : MatchField σ) (x y : Nat) (dir : Int) : List Match :=
  f.entry (f.target.cell x y) ::
    ((f.suggestion? x y dir 0).toList ++ (f.suggestion? x y 0 dir).toList)

/-- One position is offered, or none. -/
theorem filterMap_ite {c : Prop} [Decidable c] (f : Int × Int → Option Match) (q : Int × Int) :
    (if c then [q] else []).filterMap f = (if c then f q else none).toList := by
  split
  · rw [List.filterMap_cons]
    cases f q <;> rfl
  · rfl

theorem filterMap_across (f : MatchField σ) (x : Nat) {y : Nat} (hy : y < f.height) (dir : Int) :
    (f.across x y dir).filterMap (f.candidate? x y) = (f.suggestion? x y dir 0).toList := by
  have hinside : (0 ≤ (x : Int) - dir ∧ (x : Int) - dir < f.width) ↔
      f.target.contains (x - dir) (y - 0) = true := by
    simp only [Canvas.contains, Bool.and_eq_true, decide_eq_true_eq, width, height] at hy ⊢
    omega
  rw [across, suggestion?, filterMap_ite]
  simp only [hinside, Int.sub_zero, Int.add_zero, Int.toNat_natCast]
  rfl

theorem filterMap_down (f : MatchField σ) {x : Nat} (hx : x < f.width) (y : Nat) (dir : Int) :
    (f.down x y dir).filterMap (f.candidate? x y) = (f.suggestion? x y 0 dir).toList := by
  have hinside : (0 ≤ (y : Int) - dir ∧ (y : Int) - dir < f.height) ↔
      f.target.contains (x - 0) (y - dir) = true := by
    simp only [Canvas.contains, Bool.and_eq_true, decide_eq_true_eq, width, height] at hx ⊢
    omega
  rw [down, suggestion?, filterMap_ite]
  simp only [hinside, Int.sub_zero, Int.add_zero, Int.toNat_natCast]
  rfl

theorem firstNearest_propagated (f : MatchField σ) {x y : Nat} (hx : x < f.width)
    (hy : y < f.height) (dir : Int) :
    Match.FirstNearest (f.suggested x y dir) (f.propagated x y dir) := by
  have hoffers := f.toPairing.firstNearest_offers (x := x) (y := y)
    (.singleton (f.entry (f.target.cell x y))) (f.neighbours x y dir)
  rwa [neighbours, List.filterMap_append, f.filterMap_across x hy, f.filterMap_down hx] at hoffers

/-! ### Reaches -/

theorem reaches_pos {n : Nat} (hn : 0 < n) : reaches n = n :: reaches (n / 2) := by
  rw [reaches, dif_neg (Nat.ne_of_gt hn)]

/-- A search from `n` on has as many reaches as `n` can be halved, and one more. -/
theorem reaches_eq {n : Nat} (hn : 0 < n) :
    reaches n = (List.range (Nat.log 2 n + 1)).map fun i => n / 2 ^ i := by
  induction n using Nat.strongRecOn with
  | _ n ih =>
    rw [reaches_pos hn]
    by_cases htwo : 2 ≤ n
    · rw [ih (n / 2) (Nat.div_lt_self hn Nat.one_lt_two) (Nat.div_pos htwo Nat.two_pos),
        Nat.log_of_one_lt_of_le Nat.one_lt_two htwo, List.range_succ_eq_map (n := Nat.log 2 _ + 1),
        List.map_cons, List.map_map]
      simp [Nat.div_div_eq_div_mul, Nat.pow_succ', Function.comp_def]
    · obtain rfl : n = 1 := by omega
      rw [reaches]
      rfl

variable [WordSource σ]

/-! ### Random candidates -/

/-- The draws when one candidate has been drawn at each of the reaches. -/
def drawsAfter (reaches : List Nat) (s : σ) : σ :=
  reaches.foldl (fun s reach => (Draw.within reach (Draw.within reach s).2).2) s

/-- The source position drawn around `centre` at a reach: first the column, then the row, each
moved into the source. -/
def drawnAt (p : Pairing) (centre : Match) (reach : Nat) (s : σ) : Int × Int :=
  let (dx, s) := Draw.within reach s
  let (dy, _) := Draw.within reach s
  (clampBelow (centre.x + dx) p.source.width, clampBelow (centre.y + dy) p.source.height)

theorem snd_probesAt (p : Pairing) (centre : Match) (reaches : List Nat) (s : σ) :
    (probesAt p centre reaches s).2 = drawsAfter reaches s := by
  induction reaches generalizing s with
  | nil => rfl
  | cons reach reaches ih => exact ih _

theorem drawsAfter_cons (reach : Nat) (reaches : List Nat) (s : σ) :
    drawsAfter (reach :: reaches) s = drawsAfter reaches (drawsAfter [reach] s) :=
  rfl

theorem fst_probesAt_cons (p : Pairing) (centre : Match) (reach : Nat) (reaches : List Nat)
    (s : σ) : (probesAt p centre (reach :: reaches) s).1 =
      drawnAt p centre reach s :: (probesAt p centre reaches (drawsAfter [reach] s)).1 :=
  rfl

/-- Every probe is drawn at its reach, after the probes before it. -/
theorem fst_probesAt (p : Pairing) (centre : Match) (reach : Nat → Nat) (n : Nat) (s : σ) :
    (probesAt p centre ((List.range n).map reach) s).1 = (List.range n).map fun i =>
      drawnAt p centre (reach i) (drawsAfter ((List.range i).map reach) s) := by
  induction n generalizing reach s with
  | zero => rfl
  | succ n ih =>
    rw [List.range_succ_eq_map, List.map_cons, List.map_map, fst_probesAt_cons, ih, List.map_cons,
      List.map_map]
    refine congrArg (_ :: ·) (List.map_congr_left fun i _ => ?_)
    rw [Function.comp_apply, Function.comp_apply, List.range_succ_eq_map, List.map_cons,
      List.map_map, ← drawsAfter_cons]

omit [WordSource σ] in
/-- A position moved into a canvas lies in it. -/
theorem contains_clampBelow {c : Canvas} (hw : 0 < c.width) (hh : 0 < c.height) (a b : Int) :
    c.contains (clampBelow a c.width) (clampBelow b c.height) = true := by
  have hx : 0 ≤ clampBelow a c.width ∧ clampBelow a c.width < c.width := by
    unfold clampBelow
    omega
  have hy : 0 ≤ clampBelow b c.height ∧ clampBelow b c.height < c.height := by
    unfold clampBelow
    omega
  simp [Canvas.contains, hx, hy]

/-- A drawn position lies in the source. -/
theorem contains_drawnAt {p : Pairing} (hw : 0 < p.source.width) (hh : 0 < p.source.height)
    (centre : Match) (reach : Nat) (s : σ) : p.source.contains (drawnAt p centre reach s).1
      (drawnAt p centre reach s).2 = true :=
  contains_clampBelow hw hh _ _

/-- A position drawn around one in the source is no farther from it than the reach. -/
theorem drawnAt_near {p : Pairing} {centre : Match} (hcentre : p.Lands centre) (reach : Nat)
    (s : σ) : ((drawnAt p centre reach s).1 - centre.x).natAbs ≤ reach ∧
      ((drawnAt p centre reach s).2 - centre.y).natAbs ≤ reach := by
  obtain ⟨hx, hy⟩ := hcentre
  have hdx := Draw.within_mem reach s
  have hdy := Draw.within_mem reach (Draw.within reach s).2
  simp only [drawnAt, clampBelow]
  omega

/-- The offsets lie within the reach along either axis. -/
def Reached (reach : Nat) (offset : Int × Int) : Prop :=
  (-(reach : Int) ≤ offset.1 ∧ offset.1 ≤ reach) ∧ -(reach : Int) ≤ offset.2 ∧ offset.2 ≤ reach

omit [WordSource σ] in
/-- At a reach every offset within it can be drawn. -/
theorem exists_drawnAt_eq (p : Pairing) (centre : Match) {reach : Nat}
    (hreach : 2 * reach + 1 ≤ Word.span64) {offset : Int × Int} (hoffset : Reached reach offset) :
    ∃ words, ∀ {σ : Type} [WordSource σ] {s after : σ}, Draw.Yields s words after →
      drawnAt p centre reach s = (clampBelow (centre.x + offset.1) p.source.width,
        clampBelow (centre.y + offset.2) p.source.height) ∧ drawsAfter [reach] s = after := by
  obtain ⟨⟨hleft, hright⟩, habove, hbelow⟩ := hoffset
  obtain ⟨columns, hcolumns⟩ := Draw.exists_within_eq hreach hleft hright
  obtain ⟨rows, hrows⟩ := Draw.exists_within_eq hreach habove hbelow
  refine ⟨columns ++ rows, fun h => ?_⟩
  obtain ⟨s', hcolumn, hrow⟩ := Draw.yields_append.mp h
  simp only [drawnAt, drawsAfter, List.foldl_cons, List.foldl_nil, hcolumns hcolumn, hrows hrow,
    and_self]

omit [WordSource σ] in
/-- Whatever offsets one asks for, one for each reach and within it, there are words that lead to
them. -/
theorem exists_probesAt_eq (p : Pairing) (centre : Match) {reaches : List Nat}
    (hreaches : ∀ reach ∈ reaches, 2 * reach + 1 ≤ Word.span64) {offsets : List (Int × Int)}
    (hoffsets : List.Forall₂ Reached reaches offsets) :
    ∃ words, ∀ {σ : Type} [WordSource σ] {s after : σ}, Draw.Yields s words after →
      (probesAt p centre reaches s).1 = offsets.map fun offset =>
        (clampBelow (centre.x + offset.1) p.source.width,
          clampBelow (centre.y + offset.2) p.source.height) := by
  induction hoffsets with
  | nil => exact ⟨[], fun _ => rfl⟩
  | cons hoffset _ ih =>
    rw [List.forall_mem_cons] at hreaches
    obtain ⟨words, hwords⟩ := exists_drawnAt_eq p centre hreaches.1 hoffset
    obtain ⟨words', hrest⟩ := ih hreaches.2
    refine ⟨words ++ words', fun h => ?_⟩
    obtain ⟨s', hfirst, hlater⟩ := Draw.yields_append.mp h
    obtain ⟨hposition, rfl⟩ := hwords hfirst
    rw [fst_probesAt_cons, hposition, hrest hlater, List.map_cons]

/-- Candidate number `i` of those drawn around `centre`: its reach is the width of the source,
halved `i` times, and the candidates before it have been drawn already. -/
def drawnMatch (f : MatchField σ) (x y : Nat) (centre : Match) (i : Nat) : Match :=
  let reach (i : Nat) := f.source.width / 2 ^ i
  f.matchAt x y (drawnAt f.toPairing centre (reach i)
    (drawsAfter ((List.range i).map reach) f.draws))

/-- The candidates of the random search, as many as the width of the source can be halved, and one
more. -/
def drawnMatches (f : MatchField σ) (x y : Nat) (centre : Match) : List Match :=
  (List.range (Nat.log 2 f.source.width + 1)).map (f.drawnMatch x y centre)

theorem firstReach_eq {p : Pairing} (h : p.source.width < Word.half64) :
    firstReach p = p.source.width := by
  rw [firstReach, Word.signed_of_lt h, Int.toNat_natCast]

/-- The positions of the random search are all candidates. -/
theorem filterMap_probes {f : MatchField σ} (hw : 0 < f.source.width) (hh : 0 < f.source.height)
    (hword : f.source.width < Word.half64) (x y : Nat) (centre : Match) :
    (probes f.toPairing centre f.draws).1.filterMap (f.candidate? x y) =
      f.drawnMatches x y centre := by
  let position (i : Nat) := drawnAt f.toPairing centre (f.source.width / 2 ^ i)
    (drawsAfter ((List.range i).map fun i => f.source.width / 2 ^ i) f.draws)
  have hcandidate : f.candidate? x y ∘ position = some ∘ f.drawnMatch x y centre :=
    funext fun i => if_pos (contains_drawnAt hw hh centre _ _)
  calc (probes f.toPairing centre f.draws).1.filterMap (f.candidate? x y)
    _ = ((List.range (Nat.log 2 f.source.width + 1)).map position).filterMap
        (f.candidate? x y) := by
      rw [probes, firstReach_eq hword, reaches_eq hw, fst_probesAt]
    _ = (List.range (Nat.log 2 f.source.width + 1)).filterMap
        (some ∘ f.drawnMatch x y centre) := by
      rw [List.filterMap_map, hcandidate]
    _ = f.drawnMatches x y centre := by
      rw [List.filterMap_eq_map, drawnMatches]

/-! ### Refining -/

/-- Both sides of a canvas with a mask that memory can hold fit their words. -/
theorem sides_lt_of_area {c : Canvas} (hw : 0 < c.width) (hh : 0 < c.height)
    (harea : c.area < Word.half64) : c.width < Word.half64 ∧ c.height < Word.half64 :=
  ⟨Nat.lt_of_le_of_lt (Nat.le_mul_of_pos_right _ hh) harea,
    Nat.lt_of_le_of_lt (Nat.le_mul_of_pos_left _ hw) harea⟩

/-- An exact field in memory can be refined wherever the distances of the candidates fit. -/
theorem exists_refine? {f : MatchField σ} (hf : f.Exact) (harea : f.target.area < Word.half64)
    {x y : Nat} (hx : x < f.width) (hy : y < f.height) {dir : Int} (hdir : dir = 1 ∨ dir = -1)
    (hdepth : 0 < f.target.depth) (hfits : f.roomy = true ∨ f.refineFits x y dir = true) :
    ∃ g, f.refine? x y dir = .ok g := by
  obtain ⟨hp, hm⟩ := hf.entry_exact hx hy
  have hsides : f.width < Word.half64 ∧ f.height < Word.half64 :=
    sides_lt_of_area (Nat.zero_lt_of_lt hx) (Nat.zero_lt_of_lt hy) harea
  have hword : (x : Int) - dir < Word.half64 ∧ (y : Int) - dir < Word.half64 := by
    rcases hdir with rfl | rfl <;> omega
  have hneighbour (h : 0 ≤ (y : Int) - dir ∧ (y : Int) - dir < f.height) :
      ((y : Int) - dir).toNat * f.width + x < f.entries.size :=
    (hf.entry_exact hx ((Int.toNat_lt h.1).mpr h.2)).1
  have hsearch : f.checkSearch = .ok () := by
    unfold checkSearch
    split
    · rw [Fault.unless_of (Nat.zero_lt_of_lt hm.lands.2), Fault.unless_of hdepth]
      rfl
    · rfl
  refine ⟨f.refine x y dir, ?_⟩
  simp only [refine?, Fault.unless_of hp, Fault.unless_of hword, Fault.unless_of hneighbour,
    hsearch, (Bool.or_eq_true _ _).mpr hfits]
  rfl

/-- **A refined match is the first of the nearest candidates.**  Let an exact field be held in
memory and draw anything, and refine one of its pixels with the neighbours on either side.  This
ends if there are channels to compare and the distances of the candidates fit their words.  Let
`centre` be the first of the nearest among the match so far and what the neighbours suggest.  As
many positions are drawn around it as the width of the source can be halved, and one more; they lie
in the source, and as near to the centre as their reaches say.  The new match is the first of the
nearest among them all, and nothing else is drawn. -/
theorem refine?_firstNearest {f : MatchField σ} (hf : f.Exact) (harea : f.target.area < Word.half64)
    (hsource : f.source.area < Word.half64) {x y : Nat} (hx : x < f.width) (hy : y < f.height)
    {dir : Int} (hdir : dir = 1 ∨ dir = -1) :
    (0 < f.target.depth → f.roomy = true ∨ f.refineFits x y dir = true →
      ∃ g, f.refine? x y dir = .ok g) ∧
    ∀ g, f.refine? x y dir = .ok g → ∃ centre,
      Match.FirstNearest (f.suggested x y dir) centre ∧
      (∀ i ≤ Nat.log 2 f.source.width,
        f.Lands (f.drawnMatch x y centre i) ∧
        ((f.drawnMatch x y centre i).x - centre.x : Int).natAbs ≤ f.source.width / 2 ^ i ∧
        ((f.drawnMatch x y centre i).y - centre.y : Int).natAbs ≤ f.source.width / 2 ^ i) ∧
      Match.FirstNearest (f.suggested x y dir ++ f.drawnMatches x y centre)
        (g.entry (f.target.cell x y)) ∧
      g.draws = drawsAfter ((List.range (Nat.log 2 f.source.width + 1)).map
        fun i => f.source.width / 2 ^ i) f.draws := by
  refine ⟨exists_refine? hf harea hx hy hdir, fun g hg => ?_⟩
  obtain rfl := eq_refine_of_refine? hg
  obtain ⟨hp, hm⟩ := hf.entry_exact hx hy
  have hw := Nat.zero_lt_of_lt hm.lands.1
  have hh := Nat.zero_lt_of_lt hm.lands.2
  have hword := (sides_lt_of_area hw hh hsource).1
  have hcentre := f.firstNearest_propagated hx hy dir
  have hlands : f.Lands (f.propagated x y dir) := (hm.offers _).lands
  refine ⟨f.propagated x y dir, hcentre, fun i _ => ?_, ?_, ?_⟩
  · have hinside := contains_drawnAt hw hh (f.propagated x y dir) (f.source.width / 2 ^ i)
      (drawsAfter ((List.range i).map fun i => f.source.width / 2 ^ i) f.draws)
    have hnear := drawnAt_near hlands (f.source.width / 2 ^ i)
      (drawsAfter ((List.range i).map fun i => f.source.width / 2 ^ i) f.draws)
    simp only [Canvas.contains, Bool.and_eq_true, decide_eq_true_eq] at hinside
    simp only [drawnMatch, Pairing.matchAt, Pairing.Lands]
    omega
  · have hoffers := f.toPairing.firstNearest_offers (x := x) (y := y) hcentre
      (probes f.toPairing (f.propagated x y dir) f.draws).1
    rw [filterMap_probes hw hh hword] at hoffers
    rw [refine, entry_put hp]
    exact (if_pos rfl).symm ▸ hoffers
  · show (probes f.toPairing (f.propagated x y dir) f.draws).2 = _
    rw [probes, snd_probesAt, firstReach_eq hword, reaches_eq hw]

/-- A pixel of a small field, refined with the neighbours to the right and below. -/
theorem refine?_firstNearest_below :
    let small := Canvas.ofParts (.blank 3 2 .gray) (.ofHoles 3 2 fun x y => x == 1 && y == 0)
    ∃ f g : MatchField Keystream,
      (start ⟨small.clearHoles, small, 1⟩ (Keystream.ofSeed 7)).scatter? = .ok f ∧
      f.refine? 1 0 (-1) = .ok g ∧
      ∃ centre, Match.FirstNearest (f.suggested 1 0 (-1)) centre ∧
        Match.FirstNearest (f.suggested 1 0 (-1) ++ f.drawnMatches 1 0 centre)
          (g.entry (f.target.cell 1 0)) := by
  intro small
  have hstart : (start ⟨small.clearHoles, small, 1⟩ (Keystream.ofSeed 7)).Workable :=
    ⟨by decide, by decide, by decide, by decide, by decide, Array.size_replicate, by decide⟩
  have hseed := scatter?_eq_ok hstart
  have hsame := sameFrame_scatter (start ⟨small.clearHoles, small, 1⟩ (Keystream.ofSeed 7))
  generalize (start ⟨small.clearHoles, small, 1⟩ (Keystream.ofSeed 7)).scatter = f at hseed hsame
  have htarget : f.target = small.clearHoles := hsame.target_eq
  have hsource : f.source = small := hsame.source_eq
  have hdepth : 0 < f.target.depth := htarget ▸ by decide
  have hroomy : f.roomy = true := hsame.toPairing_eq ▸ by decide
  have hrefined := refine?_firstNearest (exact_of_scatter? (by simp [start]) hseed)
    (htarget ▸ by decide) (hsource ▸ by decide) (x := 1) (y := 0) (hsame.width_eq ▸ by decide)
    (hsame.height_eq ▸ by decide) (show (-1 : Int) = 1 ∨ (-1 : Int) = -1 from .inr rfl)
  obtain ⟨g, hg⟩ := hrefined.1 hdepth (.inl hroomy)
  obtain ⟨centre, hcentre, -, hmatch, -⟩ := hrefined.2 g hg
  exact ⟨f, g, hseed, hg, centre, hcentre, hmatch⟩

end MatchField

end Retouch
