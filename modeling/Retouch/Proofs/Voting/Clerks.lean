import Mathlib.Data.List.Perm.Basic
import Mathlib.Data.List.Nodup
import Retouch.Proofs.Matching.Total
import Retouch.Proofs.Voting.Samples

/-!
# Retouch — Voting — Counting shared among clerks

The rows of a target can be shared out among clerks who count at the same time.  Every clerk has one
tally, used for all pixels of all his rows, and all of them write into the same raster.  A `Rota`
says which clerk has which rows, and in which order the turns of all clerks follow each other; each
clerk takes his rows in his own order, pixel by pixel, and between two of his turns others may take
any number of theirs.

A turn clears the tally of its clerk before it counts, and it writes the samples of its own pixel
only (`exists_turn?`).  So after any turns at different pixels these pixels hold the verdicts of
their own votes, and all others are untouched (`Counted`).  A rota comes to every pixel once
(`Rota.cells_perm`).  Hence it ends, from any tallies, with the samples of the repaint that gives
each pixel a fresh tally (`exists_count?`).
-/

namespace Retouch

/-! ### Rotas -/

/-- A clerk counts the votes for pixel `(x, y)`. -/
structure Turn where
  clerk : Nat
  x : Nat
  y : Nat
  deriving DecidableEq

/-- The turns of a clerk who has the given rows, of so many columns, in this order. -/
def Turn.through (clerk columns : Nat) (rows : List Nat) : List Turn :=
  rows.flatMap fun y => (List.range columns).map fun x => ⟨clerk, x, y⟩

/-- How clerks share the rows of a target, and how their turns follow each other. -/
structure Rota (rows columns : Nat) where
  /-- The rows of each clerk, in the order in which he takes them. -/
  shares : List (List Nat)
  /-- The turns of all clerks. -/
  turns : List Turn
  /-- Each row belongs to one clerk, once. -/
  shares_perm : shares.flatten.Perm (List.range rows)
  /-- Each clerk takes his own turns in order. -/
  turns_of (clerk : Nat) :
    turns.filter (·.clerk = clerk) = Turn.through clerk columns (shares.getD clerk [])

/-- The number of samples in a row, and at least one. -/
def Canvas.rowLength (c : Canvas) : Nat :=
  max 1 (c.width * c.depth)

/-- The number of rows that the samples make up. -/
def Canvas.rowCount (c : Canvas) : Nat :=
  (c.image.samples.size + (c.rowLength - 1)) / c.rowLength

/-! ### Turns -/

/-- Counts votes: the samples of their cells are added to the tally, their weights to the sum. -/
def Vote.count? (source : Canvas) (t : Tally) (sum : Float32) :
    List Vote → Except Fault (Tally × Float32)
  | [] => .ok (t, sum)
  | v :: votes => do
    let t ← t.add? (source.image.pixel v.cell) v.weight
    count? source t (sum + v.weight) votes

/-- Writes the outcome for channel `c` behind `start`, if the channel carries colour. -/
def Tally.postAt? (t : Tally) (total : Float32) (start : Nat) (image : Raster) (c : Nat) :
    Except Fault Raster := do
  if ← image.isColor? c then
    image.setSample? (start + c) (← t.middleMean? c total)
  else
    return image

/-- Writes the outcome for all channels of the pixel whose samples begin at `start`. -/
def Tally.post? (t : Tally) (total : Float32) (start : Nat) (image : Raster) :
    Except Fault Raster :=
  (List.range image.depth).foldlM (t.postAt? total start) image

/-- The raster that is written, and the tally of each clerk. -/
structure Office where
  image : Raster
  tallies : Nat → Tally

/-- The clerk has counted on his tally. -/
def Office.withTally (office : Office) (clerk : Nat) (t : Tally) : Office :=
  { office with tallies := fun k => if k = clerk then t else office.tallies k }

namespace MatchField

variable {σ : Type}

/-- A turn: the clerk clears his tally, counts the votes for the pixel, and writes its samples if
there are enough votes. -/
def turn? (f : MatchField σ) (zoom : Zoom) (source target : Canvas) (office : Office)
    (turn : Turn) : Except Fault Office := do
  let (tally, total) ← Vote.count? source (office.tallies turn.clerk).clear 0.0
    (f.ballot zoom source target turn.x turn.y)
  let office := office.withTally turn.clerk tally
  if total < quorum then
    return office
  else
    let start := turn.y * target.rowLength + turn.x * target.depth
    return { office with image := ← tally.post? total start office.image }

/-- All turns of a rota, one after the other. -/
def count? (f : MatchField σ) (zoom : Zoom) (source target : Canvas) (turns : List Turn)
    (office : Office) : Except Fault Office :=
  turns.foldlM (f.turn? zoom source target) office

end MatchField

/-! ### Counting on a used tally -/

/-- A tally that is cleared is as good as new. -/
theorem Tally.clear_eq_empty (t : Tally) : t.clear = empty t.channels := by
  have hbins : (t.bins.map fun _ => (0.0 : Float32)) = Array.replicate (t.channels * 256) 0.0 := by
    rw [Array.map_const', t.size_eq]
  simp only [clear, empty, hbins]

theorem Tally.add?_eq_ok {t : Tally} {pixel : List UInt8} (h : pixel.length ≤ t.channels)
    (weight : Float32) : t.add? pixel weight = .ok (t.add pixel weight) := by
  rw [add?, Fault.unless_of h]
  rfl

/-- Counting on a tally with enough channels adds the votes up in order. -/
theorem Vote.count?_eq_ok {source : Canvas} {t : Tally} {votes : List Vote}
    (h : ∀ v ∈ votes, source.depth ≤ t.channels) (sum : Float32) :
    count? source t sum votes = .ok
      (votes.foldl (fun t v => t.add (source.image.pixel v.cell) v.weight) t,
        votes.foldl (fun sum v => sum + v.weight) sum) := by
  induction votes generalizing t sum with
  | nil => rfl
  | cons v votes ih =>
    obtain ⟨hfirst, hrest⟩ := List.forall_mem_cons.mp h
    have hpixel : (source.image.pixel v.cell).length ≤ t.channels := by
      rw [Raster.length_pixel]
      exact hfirst
    have hrest' : ∀ w ∈ votes,
        source.depth ≤ (t.add (source.image.pixel v.cell) v.weight).channels := hrest
    exact bind_eq_ok_iff.mpr ⟨_, Tally.add?_eq_ok hpixel v.weight, ih hrest' _⟩

/-- Counting on a cleared tally is counting on a fresh one. -/
theorem Vote.count?_clear {source : Canvas} {t : Tally} {votes : List Vote}
    (h : ∀ v ∈ votes, source.depth ≤ t.channels) :
    count? source t.clear 0.0 votes = .ok (tally source t.channels votes, total votes) := by
  have hempty : ∀ v ∈ votes, source.depth ≤ (Tally.empty t.channels).channels := h
  rw [Tally.clear_eq_empty]
  exact count?_eq_ok hempty 0.0

@[simp]
theorem Vote.channels_tally (source : Canvas) (channels : Nat) (votes : List Vote) :
    (tally source channels votes).channels = channels := by
  have hadd (t : Tally) : (votes.foldl
      (fun t v => t.add (source.image.pixel v.cell) v.weight) t).channels = t.channels := by
    induction votes generalizing t with
    | nil => rfl
    | cons v votes ih => exact ih _
  exact hadd (.empty channels)

theorem Office.channels_withTally {office : Office} {t : Tally} {channels : Nat}
    (ht : t.channels = channels) (h : ∀ k, (office.tallies k).channels = channels)
    (clerk k : Nat) : ((office.withTally clerk t).tallies k).channels = channels := by
  unfold withTally
  dsimp only
  split
  · exact ht
  · exact h k

/-! ### Writing a pixel -/

namespace Tally

variable {t : Tally} {image : Raster} {p : Nat}

/-- Posting a channel changes the colour of this channel in one pixel. -/
theorem exists_postAt? (hp : p < image.area) {c : Nat} (hc : c < image.depth)
    (ht : c < t.channels) (total : Float32) :
    ∃ posted, t.postAt? total (p * image.depth) image c = .ok posted ∧ posted.SameShape image ∧
      ∀ q, ∀ k < image.depth, posted.sample q k =
        if k = c ∧ q = p ∧ (image.layout.getD k .alpha).isColor then t.middleMean k total
        else image.sample q k := by
  have hi : p * image.depth + c < image.samples.size := image.size_samples ▸ Raster.index_lt hp hc
  have hc' : c < image.layout.size := hc
  have hcolor : image.isColor? c = .ok (image.layout.getD c .alpha).isColor := by
    simp [Raster.isColor?, hc']
  cases hcase : (image.layout.getD c .alpha).isColor with
  | true =>
    rw [hcase] at hcolor
    have hmean : t.middleMean? c total = .ok (t.middleMean c total) := by
      rw [middleMean?, Fault.unless_of ht]
      rfl
    have hset (v : UInt8) : image.setSample? (p * image.depth + c) v =
        .ok (image.withSample (p * image.depth + c) v) := by
      rw [Raster.setSample?, Fault.unless_of hi]
      rfl
    refine ⟨_, bind_eq_ok_iff.mpr ⟨_, hcolor, bind_eq_ok_iff.mpr ⟨_, hmean, hset _⟩⟩,
      ⟨rfl, rfl, rfl⟩, fun q k hk => ?_⟩
    rw [Raster.sample_withSample hp hc hk]
    by_cases hkc : k = c
    · subst hkc
      simp only [hcase, and_true, true_and]
    · simp only [hkc, and_false, false_and, if_false]
  | false =>
    rw [hcase] at hcolor
    refine ⟨image, bind_eq_ok_iff.mpr ⟨_, hcolor, rfl⟩, .refl image, fun q k hk => ?_⟩
    refine (if_neg ?_).symm
    rintro ⟨rfl, -, hk⟩
    exact Bool.false_ne_true (hcase.symm.trans hk)

/-- Posting all channels changes the colours of one pixel. -/
theorem exists_post? (hp : p < image.area) (ht : t.channels = image.depth) (total : Float32) :
    ∃ posted, t.post? total (p * image.depth) image = .ok posted ∧ posted.SameShape image ∧
      ∀ q, ∀ k < image.depth, posted.sample q k =
        if q = p ∧ (image.layout.getD k .alpha).isColor then t.middleMean k total
        else image.sample q k := by
  -- After the first `n` channels these are posted, and the others are as before.
  have hfirst (n : Nat) (hn : n ≤ image.depth) : ∃ posted,
      (List.range n).foldlM (t.postAt? total (p * image.depth)) image = .ok posted ∧
      posted.SameShape image ∧ ∀ q, ∀ k < image.depth, posted.sample q k =
        if k < n ∧ q = p ∧ (image.layout.getD k .alpha).isColor then t.middleMean k total
        else image.sample q k := by
    induction n with
    | zero => exact ⟨image, rfl, .refl image, fun q k _ => by simp⟩
    | succ n ih =>
      obtain ⟨posted, hposted, hshape, hsample⟩ := ih (Nat.le_of_succ_le hn)
      have hdepth : posted.depth = image.depth := hshape.depth_eq
      have hp' : p < posted.area := Nat.lt_of_lt_of_eq hp hshape.area_eq.symm
      obtain ⟨next, hnext, hshape', hsample'⟩ :=
        exists_postAt? hp' (Nat.lt_of_lt_of_eq hn hdepth.symm) (Nat.lt_of_lt_of_eq hn ht.symm) total
      rw [hdepth] at hnext
      refine ⟨next, ?_, hshape'.trans hshape, fun q k hk => ?_⟩
      · rw [List.range_succ, List.foldlM_append]
        exact bind_eq_ok_iff.mpr ⟨posted, hposted, bind_eq_ok_iff.mpr ⟨next, hnext, rfl⟩⟩
      · rw [hsample' q k (Nat.lt_of_lt_of_eq hk hdepth.symm), hsample q k hk, hshape.layout_eq]
        by_cases hkn : k = n
        · simp [hkn]
        · have hlt : k < n + 1 ↔ k < n := by omega
          simp [hkn, hlt]
  obtain ⟨posted, hposted, hshape, hsample⟩ := hfirst image.depth (Nat.le_refl _)
  refine ⟨posted, hposted, hshape, fun q k hk => ?_⟩
  rw [hsample q k hk]
  simp only [hk, true_and]

end Tally

/-! ### Turn by turn -/

/-- The pixel that is counted in a turn. -/
def Turn.cell (columns : Nat) (turn : Turn) : Nat :=
  turn.y * columns + turn.x

/-- The turn is for a pixel of the target. -/
def Turn.Within (target : Canvas) (turn : Turn) : Prop :=
  turn.x < target.width ∧ turn.y < target.height

/-- Where there are samples, a row of them begins where the samples of its first pixel do. -/
theorem Turn.start_eq {target : Canvas} (hdepth : 0 < target.depth) {turn : Turn}
    (hturn : turn.Within target) : turn.y * target.rowLength + turn.x * target.depth =
      turn.cell target.width * target.depth := by
  have hwidth : 0 < target.width := Nat.zero_lt_of_lt hturn.1
  have hrow : target.rowLength = target.width * target.depth :=
    Nat.max_eq_right (Nat.mul_pos hwidth hdepth)
  rw [hrow, Turn.cell, Nat.add_mul, Nat.mul_assoc]

namespace MatchField

variable {σ : Type} {f : MatchField σ} {zoom : Zoom} {source target : Canvas}

/-- The pixels in `done` have been counted, and no others: their samples are the verdicts of their
own votes.  What the tallies hold does not matter. -/
structure Counted (f : MatchField σ) (zoom : Zoom) (source target : Canvas) (done : List Nat)
    (office : Office) : Prop where
  shape : office.image.SameShape target.image
  channels_eq : ∀ clerk, (office.tallies clerk).channels = target.depth
  sample_eq : ∀ p < target.area, ∀ c < target.depth, office.image.sample p c =
    if p ∈ done then f.verdictAt zoom source target p c else target.image.sample p c

/-- The votes counted in a turn are those for its pixel. -/
theorem ballotAt_cell {turn : Turn} (hturn : turn.Within target) :
    f.ballotAt zoom source target (turn.cell target.width) =
      f.ballot zoom source target turn.x turn.y := by
  rw [ballotAt, Turn.cell, Raster.index_mod _ hturn.1, Raster.index_div _ hturn.1]

/-- One more pixel is counted when its samples, and no others, have become the verdicts. -/
theorem Counted.insert {done : List Nat} {office : Office}
    (hoffice : f.Counted zoom source target done office) (next : Office)
    (hshape : next.image.SameShape office.image)
    (hchannels : ∀ clerk, (next.tallies clerk).channels = target.depth) {p : Nat}
    (hsample : ∀ q < target.area, ∀ c < target.depth, next.image.sample q c =
      if q = p then f.verdictAt zoom source target p c else office.image.sample q c) :
    f.Counted zoom source target (done ++ [p]) next where
  shape := hshape.trans hoffice.shape
  channels_eq := hchannels
  sample_eq q hq c hc := by
    rw [hsample q hq c hc]
    by_cases hqp : q = p
    · simp [hqp]
    · simp [hqp, hoffice.sample_eq q hq c hc]

/-- A turn at a new pixel ends, with this pixel counted as well. -/
theorem exists_turn? (hvotes : ∀ p < target.area, ∀ v ∈ f.ballotAt zoom source target p,
      source.depth ≤ target.depth) (hdepth : 0 < target.depth)
    {done : List Nat} {office : Office} (hoffice : f.Counted zoom source target done office)
    {turn : Turn} (hturn : turn.Within target) (hnew : turn.cell target.width ∉ done) :
    ∃ next, f.turn? zoom source target office turn = .ok next ∧
      f.Counted zoom source target (done ++ [turn.cell target.width]) next := by
  have hp : turn.cell target.width < target.area := Raster.cell_lt_area hturn.1 hturn.2
  have hballot : f.ballotAt zoom source target (turn.cell target.width) =
      f.ballot zoom source target turn.x turn.y := ballotAt_cell hturn
  have hstart := Turn.start_eq hdepth hturn
  generalize turn.cell target.width = p at *
  -- The used tally is cleared, so the clerk counts like one who starts with a fresh tally.
  have hcount := Vote.count?_clear (t := office.tallies turn.clerk) fun v hv =>
    hoffice.channels_eq turn.clerk ▸ hvotes p hp v hv
  rw [hballot, hoffice.channels_eq] at hcount
  set votes := f.ballot zoom source target turn.x turn.y
  set tally := Vote.tally source target.depth votes
  have hverdict {c : Nat} (hc : c < target.depth) : f.verdictAt zoom source target p c =
      tally.verdict (Vote.total votes) target.layout c (office.image.sample p c) := by
    rw [hoffice.sample_eq p hp c hc, if_neg hnew, verdictAt, hballot]
  have htally : tally.channels = target.depth := Vote.channels_tally source target.depth votes
  have hchannels := Office.channels_withTally htally hoffice.channels_eq turn.clerk
  by_cases hquorum : Vote.total votes < quorum
  · refine ⟨_, ?_, hoffice.insert (office.withTally turn.clerk tally) (.refl _) hchannels ?_⟩
    · rw [turn?, hcount]
      exact if_pos hquorum
    · intro q hq c hc
      split
      · rename_i hqp
        rw [hverdict hc, Tally.verdict, if_pos hquorum, hqp]
        rfl
      · rfl
  · have himage : office.image.depth = target.depth := hoffice.shape.depth_eq
    have hp' : p < office.image.area := Nat.lt_of_lt_of_eq hp hoffice.shape.area_eq.symm
    obtain ⟨posted, hposted, hshape, hsample⟩ :=
      Tally.exists_post? hp' (htally.trans himage.symm) (Vote.total votes)
    rw [himage, ← hstart] at hposted
    refine ⟨_, ?_, hoffice.insert { office.withTally turn.clerk tally with image := posted } hshape
      hchannels ?_⟩
    · rw [turn?, hcount]
      refine Eq.trans (if_neg hquorum) ?_
      exact bind_eq_ok_iff.mpr ⟨posted, hposted, rfl⟩
    · intro q hq c hc
      rw [hsample q c (Nat.lt_of_lt_of_eq hc himage.symm), hoffice.shape.layout_eq]
      by_cases hqp : q = p
      · rw [if_pos hqp, hverdict hc, Tally.verdict, if_neg hquorum, hqp]
        simp only [true_and]
        rfl
      · simp only [hqp, false_and, if_false]

/-- Turns at different new pixels end, with all these pixels counted. -/
theorem exists_turns? (hvotes : ∀ p < target.area, ∀ v ∈ f.ballotAt zoom source target p,
      source.depth ≤ target.depth) (hdepth : 0 < target.depth) {turns : List Turn}
    (hturns : ∀ turn ∈ turns, turn.Within target) {done : List Nat}
    (hnodup : (done ++ turns.map (Turn.cell target.width)).Nodup) {office : Office}
    (hoffice : f.Counted zoom source target done office) :
    ∃ last, f.count? zoom source target turns office = .ok last ∧
      f.Counted zoom source target (done ++ turns.map (Turn.cell target.width)) last := by
  induction turns generalizing done office with
  | nil => exact ⟨office, rfl, by simpa using hoffice⟩
  | cons turn turns ih =>
    obtain ⟨hturn, hturns⟩ := List.forall_mem_cons.mp hturns
    rw [List.map_cons, List.append_cons] at hnodup ⊢
    have hnew : turn.cell target.width ∉ done := by
      have hfirst := (List.nodup_append.mp hnodup).1
      exact fun hmem => (List.nodup_append.mp hfirst).2.2 _ hmem _ (by simp) rfl
    obtain ⟨next, hnext, hcounted⟩ := exists_turn? hvotes hdepth hoffice hturn hnew
    obtain ⟨last, hlast, hcounted'⟩ := ih hturns hnodup hcounted
    exact ⟨last, bind_eq_ok_iff.mpr ⟨next, hnext, hlast⟩, hcounted'⟩

end MatchField

/-! ### Any rota -/

/-- Turns are those of the clerks, one clerk after the other. -/
theorem Turn.perm_by_clerk {n : Nat} {turns : List Turn} (h : ∀ turn ∈ turns, turn.clerk < n) :
    turns.Perm ((List.range n).flatMap fun k => turns.filter (·.clerk = k)) := by
  induction n generalizing turns with
  | zero =>
    have hnone : turns = [] :=
      List.eq_nil_iff_forall_not_mem.mpr fun turn hturn => Nat.not_lt_zero _ (h turn hturn)
    subst hnone
    exact .refl _
  | succ n ih =>
    -- The turns of the last clerk aside, the others have fewer clerks.
    have hothers : ∀ turn ∈ turns.filter (¬ ·.clerk = n), turn.clerk < n := fun turn hturn => by
      have hle := h turn (List.mem_filter.mp hturn).1
      have hne : ¬ turn.clerk = n := by simpa using (List.mem_filter.mp hturn).2
      omega
    have hsame : ((List.range n).flatMap fun k =>
        (turns.filter (¬ ·.clerk = n)).filter (·.clerk = k)) =
        (List.range n).flatMap fun k => turns.filter (·.clerk = k) := by
      refine List.flatMap_congr fun k hk => ?_
      rw [List.filter_filter]
      refine List.filter_congr fun turn _ => ?_
      have hk' := List.mem_range.mp hk
      by_cases hturn : turn.clerk = k
      · simp [hturn, Nat.ne_of_lt hk']
      · simp [hturn]
    rw [List.range_succ, List.flatMap_append, List.flatMap_singleton]
    calc
      turns.Perm (turns.filter (·.clerk = n) ++ turns.filter (¬ ·.clerk = n)) := by
        simpa using (List.filter_append_perm (·.clerk = n) turns).symm
      _ |>.Perm (turns.filter (¬ ·.clerk = n) ++ turns.filter (·.clerk = n)) :=
        List.perm_append_comm
      _ |>.Perm _ := (hsame ▸ ih hothers).append_right _

namespace Rota

variable {rows columns : Nat} (rota : Rota rows columns)

/-- Who has a turn has rows. -/
theorem clerk_lt {turn : Turn} (h : turn ∈ rota.turns) : turn.clerk < rota.shares.length := by
  have hmem : turn ∈ rota.turns.filter (·.clerk = turn.clerk) := by simp [h]
  rw [rota.turns_of] at hmem
  by_contra hge
  simp [Turn.through, Nat.not_lt.mp hge] at hmem

/-- A rota comes to every pixel, and to each once. -/
theorem cells_perm :
    (rota.turns.map (Turn.cell columns)).Perm (List.range (rows * columns)) := by
  let row (y : Nat) : List Nat := (List.range columns).map fun x => y * columns + x
  have hshare (k : Nat) : (rota.turns.filter (·.clerk = k)).map (Turn.cell columns) =
      (rota.shares.getD k []).flatMap row := by
    rw [rota.turns_of, Turn.through, List.map_flatMap]
    simp only [List.map_map]
    rfl
  have hshares : (List.range rota.shares.length).map (rota.shares.getD · []) = rota.shares := by
    refine List.ext_getElem (by simp) fun k hk hk' => ?_
    simp [hk']
  have hturns := (Turn.perm_by_clerk fun _ => rota.clerk_lt).map (Turn.cell columns)
  rw [List.map_flatMap] at hturns
  simp only [hshare] at hturns
  calc
    (rota.turns.map (Turn.cell columns)).Perm
        ((List.range rota.shares.length).flatMap fun k => (rota.shares.getD k []).flatMap row) :=
      hturns
    _ = ((List.range rota.shares.length).map (rota.shares.getD · [])).flatten.flatMap row := by
      rw [← List.flatMap_def, List.flatMap_assoc]
    _ |>.Perm ((List.range rows).flatMap row) := hshares.symm ▸ rota.shares_perm.flatMap_right row
    _ = List.range (rows * columns) := Raster.flatMap_rows rows columns

/-- A turn is for a pixel in a row of its clerk. -/
theorem within {turn : Turn} (h : turn ∈ rota.turns) : turn.x < columns ∧ turn.y < rows := by
  have hmem : turn ∈ rota.turns.filter (·.clerk = turn.clerk) := by simp [h]
  rw [rota.turns_of, Turn.through] at hmem
  obtain ⟨y, hy, hmem⟩ := List.mem_flatMap.mp hmem
  obtain ⟨x, hx, hturn⟩ := List.mem_map.mp hmem
  have hshare : rota.shares.getD turn.clerk [] ∈ rota.shares := by
    rw [List.getD_eq_getElem?_getD, List.getElem?_eq_getElem (rota.clerk_lt h)]
    exact List.getElem_mem _
  have hrow : y ∈ List.range rows :=
    rota.shares_perm.subset (List.mem_flatten.mpr ⟨_, hshare, hy⟩)
  rw [← hturn]
  exact ⟨List.mem_range.mp hx, List.mem_range.mp hrow⟩

end Rota

namespace Canvas

variable {target : Canvas}

/-- The samples make up the rows of the target, where there are samples. -/
theorem rowCount_eq (harea : 0 < target.area) (hdepth : 0 < target.depth) :
    target.rowCount = target.height := by
  have hwidth : 0 < target.width := Nat.pos_of_mul_pos_right harea
  have hlength : target.rowLength = target.width * target.depth :=
    Nat.max_eq_right (Nat.mul_pos hwidth hdepth)
  have hpos : 0 < target.rowLength := hlength ▸ Nat.mul_pos hwidth hdepth
  have hsize : target.image.samples.size = target.rowLength * target.height := by
    rw [hlength, target.image.size_samples, Raster.area, Nat.mul_right_comm]
    rfl
  rw [rowCount, hsize, Nat.mul_add_div hpos, Nat.div_eq_of_lt (Nat.sub_one_lt_of_lt hpos),
    Nat.add_zero]

/-- Without samples there are no rows. -/
theorem rowCount_eq_zero (h : ¬ (0 < target.area ∧ 0 < target.depth)) : target.rowCount = 0 := by
  have hnone : target.area = 0 ∨ target.depth = 0 := by omega
  have hsize : target.image.samples.size = 0 := by
    rw [target.image.size_samples]
    exact Nat.mul_eq_zero.mpr hnone
  have hpos : 0 < target.rowLength := Nat.lt_of_lt_of_le Nat.zero_lt_one (Nat.le_max_left ..)
  rw [rowCount, hsize, Nat.zero_add, Nat.div_eq_of_lt (Nat.sub_one_lt_of_lt hpos)]

end Canvas

namespace MatchField

variable {σ : Type} {f : MatchField σ} {zoom : Zoom} {source target : Canvas}

/-- **Counting may be shared.**  Where a repaint ends, so do the clerks, with the same samples:
however many they are, however they share the rows, in whatever order their turns follow each
other, and whatever their tallies hold at the start. -/
theorem exists_count? {result : Canvas} (h : f.repaint? zoom source target = .ok result)
    (rota : Rota target.rowCount target.width) {tallies : Nat → Tally}
    (htallies : ∀ clerk, (tallies clerk).channels = target.depth) :
    ∃ last, f.count? zoom source target rota.turns ⟨target.image, tallies⟩ = .ok last ∧
      target.withImage last.image = result := by
  have hstart : f.Counted zoom source target [] ⟨target.image, tallies⟩ :=
    ⟨.refl _, htallies, fun p _ c _ => by simp⟩
  have hcells := rota.cells_perm
  rw [← (repaint?_eq_ok_iff.mp h).1]
  by_cases hsamples : 0 < target.area ∧ 0 < target.depth
  · obtain ⟨harea, hdepth⟩ := hsamples
    have hrows := Canvas.rowCount_eq harea hdepth
    have hcount : target.rowCount * target.width = target.area := by
      rw [hrows, Nat.mul_comm]
      rfl
    rw [hcount] at hcells
    have hturns : ∀ turn ∈ rota.turns, turn.Within target := fun turn hturn =>
      ⟨(rota.within hturn).1, Nat.lt_of_lt_of_eq (rota.within hturn).2 hrows⟩
    obtain ⟨last, hlast, hcounted⟩ := exists_turns?
      (fun p hp v hv => depth_le_of_mem_ballotAt h hp hdepth hv) hdepth hturns
      (hcells.nodup_iff.mpr List.nodup_range) hstart
    refine ⟨last, hlast, withImage_eq_repaint hcounted.shape fun p hp c hc => ?_⟩
    rw [hcounted.sample_eq p hp c hc, if_pos]
    exact hcells.mem_iff.mpr (List.mem_range.mpr hp)
  · have hcount : target.rowCount * target.width = 0 := by
      rw [Canvas.rowCount_eq_zero hsamples, Nat.zero_mul]
    rw [hcount] at hcells
    have hnone : rota.turns = [] := List.map_eq_nil_iff.mp hcells.eq_nil
    refine ⟨_, congrArg (f.count? zoom source target · _) hnone, ?_⟩
    exact withImage_eq_repaint (.refl _) fun p hp c hc =>
      (hsamples ⟨Nat.zero_lt_of_lt hp, Nat.zero_lt_of_lt hc⟩).elim

/-- Three rows of two pixels, one light pixel among dark ones. -/
def lampCanvas : Canvas :=
  .ofParts (.generate 2 3 .gray fun p _ => if p = 3 then 200 else 20) (.blank 2 3 .gray)

/-- The field that matches every pixel of the canvas with the light one. -/
def lampField : MatchField Unit :=
  ⟨⟨lampCanvas, lampCanvas, 1⟩, Array.replicate 6 ⟨1, 1, 0⟩, ()⟩

/-- One clerk takes the last row and then the first, another the row between, by turns. -/
def crossedRota : Rota 3 2 where
  shares := [[2, 0], [1]]
  turns := [⟨1, 0, 1⟩, ⟨0, 0, 2⟩, ⟨0, 1, 2⟩, ⟨0, 0, 0⟩, ⟨1, 1, 1⟩, ⟨0, 1, 0⟩]
  shares_perm := by decide
  turns_of clerk :=
    match clerk with
    | 0 => rfl
    | 1 => rfl
    | clerk + 2 => by simp [Turn.through]

/-- Two clerks with used tallies end with the repaint. -/
theorem exists_count?_crossed : ∃ last,
    lampField.count? .same lampCanvas lampCanvas crossedRota.turns
      ⟨lampCanvas.image, fun clerk => (Tally.empty 1).add [7] (Single.ofCount clerk)⟩ = .ok last ∧
    lampCanvas.withImage last.image = lampField.repaint .same lampCanvas lampCanvas := by
  have hrepaint : lampField.repaint? .same lampCanvas lampCanvas =
      .ok (lampField.repaint .same lampCanvas lampCanvas) :=
    repaint?_eq_ok (by decide) (by decide) (Nat.le_refl _)
  exact exists_count? hrepaint crossedRota fun _ => rfl

end MatchField

end Retouch
