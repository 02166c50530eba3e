import Mathlib.Data.List.Sort
import Retouch.Proofs.Matching.Total
import Retouch.Proofs.Voting.Samples

/-!
# Retouch — Voting — Votes cast patch by patch

A repaint goes through the pixels and gathers, for each, the votes of the patches around it.  It
can also be told the other way round (`MatchField.castRepaint`): every pixel has an urn; one goes
through the patches, row by row, and each casts a vote into the urn of every pixel that it covers,
for the pixel at the same place inside the matched patch; in the end the urns are counted.

The two are the same (`repaint?_cast`), sums in single precision included, because every urn gets
the votes that its pixel gathers, and gets them in this order: a patch casts at most one vote into
an urn (`castFor_cast`), and the patches that reach a pixel come up by row and then by column
(`castFor_casts`).
-/

namespace Retouch

/-! ### Urns -/

/-- What is collected for a pixel: the tally of the votes and their weight. -/
structure Urn where
  tally : Tally
  total : Float32

namespace Urn

/-- The urn without any vote. -/
def empty (channels : Nat) : Urn :=
  ⟨.empty channels, 0.0⟩

/-- The urn after one more vote. -/
def receive (source : Canvas) (urn : Urn) (v : Vote) : Urn :=
  ⟨urn.tally.add (source.image.pixel v.cell) v.weight, urn.total + v.weight⟩

/-- A vote is cast into the urn of a pixel. -/
def deposit (source : Canvas) (urns : Array Urn) (cast : Nat × Vote) : Array Urn :=
  urns.modify cast.1 (·.receive source cast.2)

end Urn

namespace MatchField

variable {σ : Type}

/-- The offsets of a patch along one axis, from the radius on the left to the radius on the right.
A radius beyond the signed range reaches nothing. -/
def offsets (f : MatchField σ) : List Int :=
  if f.radius < Word.half64 then
    (List.range (2 * f.radius + 1)).map fun i : Nat => (i : Int) - f.radius
  else
    []

/-- The vote that the patch around `(qx, qy)` casts at an offset, with the pixel that it is cast
for: there is one if the patch lies in the target there, and the matched patch on an open pixel.
The match of a patch is the entry of its pixel (`aim_same`), or at the double size the entry that
covers it, with twice its position moved by the place of the pixel in its block (`aim_double`). -/
def castAt? (f : MatchField σ) (zoom : Zoom) (source target : Canvas) (qx qy : Nat) (ox oy : Int) :
    Option (Nat × Vote) :=
  let m := f.aim zoom qx qy
  let (x, y) := (qx + ox, qy + oy)
  let (x', y') := (m.x + ox, m.y + oy)
  if target.contains x y && source.isOpen x' y' then
    some (target.cell x.toNat y.toNat,
      ⟨source.cell x'.toNat y'.toNat, Similarity.weight m.distance⟩)
  else
    none

/-- All votes that the patch around `(qx, qy)` casts. -/
def cast (f : MatchField σ) (zoom : Zoom) (source target : Canvas) (qx qy : Nat) :
    List (Nat × Vote) :=
  f.offsets.flatMap fun oy => f.offsets.filterMap fun ox =>
    f.castAt? zoom source target qx qy ox oy

/-- The urns of all pixels when every patch, row by row, has cast its votes. -/
def urns (f : MatchField σ) (zoom : Zoom) (source target : Canvas) : Array Urn :=
  (List.range target.area).foldl
    (fun urns q =>
      (f.cast zoom source target (q % target.width) (q / target.width)).foldl
        (Urn.deposit source) urns)
    (Array.replicate target.area (.empty target.depth))

/-- The target with the verdicts of the urns. -/
def castRepaint (f : MatchField σ) (zoom : Zoom) (source target : Canvas) : Canvas :=
  let urns := f.urns zoom source target
  target.withImage <| .generate target.width target.height target.layout fun p c =>
    let urn := urns.getD p (.empty target.depth)
    urn.tally.verdict urn.total target.layout c (target.image.sample p c)

end MatchField

/-! ### Lists -/

/-- In a list without repetition an element comes up once. -/
theorem flatMap_of_nodup {α : Type} {l : List Int} (hl : l.Nodup) (a : Int) (b : List α) :
    (l.flatMap fun o => if o = a then b else []) = if a ∈ l then b else [] := by
  induction l with
  | nil => rfl
  | cons o l ih =>
    obtain ⟨ho, hl⟩ := List.nodup_cons.mp hl
    rw [List.flatMap_cons, ih hl]
    by_cases hoa : o = a
    · subst hoa
      simp [ho]
    · have hao : ¬ a = o := fun h => hoa h.symm
      simp [hoa, hao]

theorem flatMap_filter {α β : Type} (l : List α) (keep : α → Bool) (g : α → List β) :
    (l.filter keep).flatMap g = l.flatMap fun a => if keep a then g a else [] := by
  induction l with
  | nil => rfl
  | cons a l ih =>
    rw [List.filter_cons, List.flatMap_cons, ← ih]
    split <;> rfl

/-! ### One urn at a time -/

/-- A vote, if it is cast for pixel `p`. -/
def Vote.ifFor (p : Nat) (cast : Nat × Vote) : Option Vote :=
  if cast.1 = p then some cast.2 else none

/-- The votes that are cast for pixel `p`, in order. -/
def Vote.castFor (p : Nat) (casts : List (Nat × Vote)) : List Vote :=
  casts.filterMap (ifFor p)

namespace Urn

variable (source : Canvas)

/-- An urn receives the votes that are cast for its pixel, and no others. -/
theorem getElem?_foldl_deposit (casts : List (Nat × Vote)) (urns : Array Urn) (p : Nat) :
    (casts.foldl (deposit source) urns)[p]? =
      urns[p]?.map fun urn => (Vote.castFor p casts).foldl (receive source) urn := by
  induction casts generalizing urns with
  | nil => simp [Vote.castFor]
  | cons cast casts ih =>
    rw [List.foldl_cons, ih, deposit, Array.getElem?_modify]
    by_cases hcast : cast.1 = p
    · simp [Vote.castFor, Vote.ifFor, hcast, Function.comp_def]
    · simp [Vote.castFor, Vote.ifFor, hcast]

/-- Receiving votes one by one is adding up their tally and their weight. -/
theorem foldl_receive (votes : List Vote) (channels : Nat) :
    votes.foldl (receive source) (empty channels) =
      ⟨Vote.tally source channels votes, Vote.total votes⟩ := by
  have hboth (urn : Urn) : votes.foldl (receive source) urn =
      ⟨votes.foldl (fun t v => t.add (source.image.pixel v.cell) v.weight) urn.tally,
        votes.foldl (fun sum v => sum + v.weight) urn.total⟩ := by
    induction votes generalizing urn with
    | nil => rfl
    | cons v votes ih => exact ih _
  exact hboth (empty channels)

end Urn

/-! ### The votes of a patch -/

namespace MatchField

variable {σ : Type} {f : MatchField σ} {zoom : Zoom} {source target : Canvas}

theorem nodup_offsets : f.offsets.Nodup := by
  unfold offsets
  split
  · refine List.nodup_range.map fun i j h => ?_
    omega
  · exact List.nodup_nil

/-- At one offset, which may be out of reach, a patch casts for a pixel the vote that the pixel
gathers from it; at all others it casts for other pixels. -/
theorem castAt?_bind {x y : Nat} (hx : x < target.width) (hy : y < target.height) (qx qy : Nat)
    (ox oy : Int) :
    (f.castAt? zoom source target qx qy ox oy).bind (Vote.ifFor (target.cell x y)) =
      if oy = y - qy then if ox = x - qx then f.vote? zoom source x y qx qy else none
      else none := by
  by_cases hone : ox = x - qx ∧ oy = y - qy
  · obtain ⟨rfl, rfl⟩ := hone
    have hqx : (qx : Int) + (x - qx) = x := by omega
    have hqy : (qy : Int) + (y - qy) = y := by omega
    have hinside : target.contains x y = true := by
      simp only [Canvas.contains, Bool.and_eq_true, decide_eq_true_eq]
      omega
    simp only [castAt?, hqx, hqy, hinside, Int.toNat_natCast, if_true, Bool.true_and, vote?,
      ← Int.add_sub_assoc]
    split <;> simp [Vote.ifFor]
  · have hnone : (if oy = y - qy then
        if ox = x - qx then f.vote? zoom source x y qx qy else none
        else none) = none := by
      split
      · exact if_neg fun hox => hone ⟨hox, ‹_›⟩
      · rfl
    rw [hnone]
    unfold castAt?
    dsimp only
    split
    · rename_i hcast
      simp only [Canvas.contains, Bool.and_eq_true, decide_eq_true_eq] at hcast
      have hinside : (qx + ox).toNat < target.width := by omega
      have hcell : ¬ target.cell (qx + ox).toNat (qy + oy).toNat = target.cell x y := by
        rw [Canvas.cell, Canvas.cell, Raster.index_inj hinside hx]
        omega
      exact if_neg hcell
    · rfl

/-- A patch casts for a pixel the vote that the pixel gathers from it, if it reaches so far. -/
theorem castFor_cast {x y : Nat} (hx : x < target.width) (hy : y < target.height) (qx qy : Nat) :
    Vote.castFor (target.cell x y) (f.cast zoom source target qx qy) =
      if (y - qy : Int) ∈ f.offsets then
        if (x - qx : Int) ∈ f.offsets then (f.vote? zoom source x y qx qy).toList else []
      else [] := by
  have hrow (oy : Int) : (f.offsets.filterMap fun ox : Int =>
        if oy = y - qy then if ox = x - qx then f.vote? zoom source x y qx qy else none
        else none) =
      if oy = y - qy then
        if (x - qx : Int) ∈ f.offsets then (f.vote? zoom source x y qx qy).toList else []
      else [] := by
    split
    · rw [List.filterMap_eq_flatMap_toList]
      simp only [apply_ite Option.toList, Option.toList_none]
      exact flatMap_of_nodup nodup_offsets _ _
    · exact List.filterMap_none _
  rw [Vote.castFor, cast, List.filterMap_flatMap]
  simp only [List.filterMap_filterMap, castAt?_bind hx hy, hrow]
  exact flatMap_of_nodup nodup_offsets _ _

/-! ### The votes of all patches -/

/-- The patches that cover a cell along an axis are those that reach it at some offset. -/
theorem centres_eq (v n : Nat) :
    f.centres v n = (List.range n).filter fun q : Nat => (v - q : Int) ∈ f.offsets := by
  unfold centres offsets
  split
  · refine (List.sortedLT_range' _ _ Nat.one_ne_zero).eq_of_mem_iff
      ((List.sortedLT_range n).pairwise.filter _).sortedLT fun q => ?_
    simp only [List.mem_range'_1, List.mem_filter, List.mem_range, List.mem_map, decide_eq_true_eq]
    constructor
    · intro hq
      exact ⟨by omega, v + f.radius - q, by omega, by omega⟩
    · rintro ⟨hq, i, hi, hiq⟩
      omega
  · simp

/-- All patches together cast for a pixel the votes that the pixel gathers, in the same order. -/
theorem castFor_casts {p : Nat} (hp : p < target.area) :
    Vote.castFor p ((List.range target.area).flatMap fun q =>
      f.cast zoom source target (q % target.width) (q / target.width)) =
      f.ballotAt zoom source target p := by
  have hwidth : 0 < target.width := Nat.pos_of_mul_pos_right (Nat.zero_lt_of_lt hp)
  have hx : p % target.width < target.width := Nat.mod_lt _ hwidth
  have hy : p / target.width < target.height := Nat.div_lt_of_lt_mul hp
  have hcell : target.cell (p % target.width) (p / target.width) = p := Nat.div_add_mod' ..
  have hrows : List.range target.area = (List.range target.height).flatMap fun qy =>
      (List.range target.width).map fun qx => qy * target.width + qx := by
    rw [Raster.flatMap_rows, Nat.mul_comm]
    rfl
  -- A row of patches, of those that reach the row of the pixel.
  have hrow (qy : Nat) : ((List.range target.width).flatMap fun qx =>
        Vote.castFor p (f.cast zoom source target qx qy)) =
      if (↑(p / target.width) - qy : Int) ∈ f.offsets then
        (f.centres (p % target.width) target.width).filterMap fun qx =>
          f.vote? zoom source (p % target.width) (p / target.width) qx qy
      else [] := by
    have hcast (qx : Nat) : Vote.castFor (target.cell (p % target.width) (p / target.width))
        (f.cast zoom source target qx qy) = _ := castFor_cast hx hy qx qy
    simp only [hcell] at hcast
    simp only [hcast, centres_eq, List.filterMap_eq_flatMap_toList]
    split
    · simp only [flatMap_filter, decide_eq_true_eq]
    · exact List.flatMap_eq_nil_iff.mpr fun _ _ => rfl
  calc
    _ = (List.range target.area).flatMap fun q =>
          Vote.castFor p (f.cast zoom source target (q % target.width) (q / target.width)) :=
      List.filterMap_flatMap
    _ = (List.range target.height).flatMap fun qy => (List.range target.width).flatMap fun qx =>
          Vote.castFor p (f.cast zoom source target qx qy) := by
      rw [hrows, List.flatMap_assoc]
      simp only [List.flatMap_map]
      refine List.flatMap_congr fun qy _ => List.flatMap_congr fun qx hqx => ?_
      rw [Raster.index_mod _ (List.mem_range.mp hqx), Raster.index_div _ (List.mem_range.mp hqx)]
    _ = f.ballotAt zoom source target p := by
      simp only [hrow, ballotAt, ballot, centres_eq _ target.height, flatMap_filter,
        decide_eq_true_eq]

/-- The urn of a pixel holds the votes for it. -/
theorem getElem?_urns {p : Nat} (hp : p < target.area) :
    (f.urns zoom source target)[p]? =
      let votes := f.ballotAt zoom source target p
      some ⟨Vote.tally source target.depth votes, Vote.total votes⟩ := by
  rw [urns, ← List.foldl_flatMap, Urn.getElem?_foldl_deposit, castFor_casts hp]
  simp [hp, Urn.foldl_receive]

/-- Counting the urns is counting gathered votes. -/
theorem castRepaint_eq_repaint :
    f.castRepaint zoom source target = f.repaint zoom source target := by
  refine withImage_eq_repaint ⟨rfl, rfl, rfl⟩ fun p hp c hc => ?_
  have hp' : p < target.width * target.height := hp
  have hc' : c < target.layout.size := hc
  rw [Raster.sample_generate hp' hc']
  simp [getElem?_urns hp, verdictAt]

/-! ### Repaints that end -/

/-- The sizes of field, source and target go together: there is an entry for every pixel of the
field; the target has the sides of the field, or, at twice the size, there is a field where there
is a target; and the source has no more channels than the target. -/
structure Aligned (f : MatchField σ) (zoom : Zoom) (source target : Canvas) : Prop where
  size_eq : f.entries.size = f.width * f.height
  sides : match zoom with
    | .same => target.width = f.width ∧ target.height = f.height
    | .double => 0 < target.area → 0 < f.width ∧ 0 < f.height
  depth_le : source.depth ≤ target.depth

theorem Aligned.covers (h : f.Aligned zoom source target) (harea : 0 < target.area) :
    f.Covers zoom target := by
  obtain ⟨hsize, hsides, -⟩ := h
  cases zoom with
  | same =>
    obtain ⟨hwidth, hheight⟩ := hsides
    have hwidth' : 0 < target.width := Nat.pos_of_mul_pos_right harea
    have hheight' : 0 < target.height := Nat.pos_of_mul_pos_left harea
    have hlast : (target.height - 1) * f.width + (f.width - 1) < target.height * f.width :=
      Raster.index_lt (Nat.sub_one_lt_of_lt hheight') (hwidth ▸ Nat.sub_one_lt_of_lt hwidth')
    show (target.height - 1) * f.width + target.width - 1 < f.entries.size
    rw [hsize, ← hheight, Nat.mul_comm f.width, hwidth]
    omega
  | double => exact hsides harea

/-- Where the sizes go together a repaint ends, unless the radius is one that has no negative. -/
theorem Aligned.repaint?_eq_ok (h : f.Aligned zoom source target)
    (hradius : f.radius ≠ Word.half64) :
    f.repaint? zoom source target = .ok (f.repaint zoom source target) :=
  repaint?_eq_ok_iff.mpr
    ⟨rfl, fun harea _ => ⟨hradius, fun _ => ⟨h.covers harea, .inl h.depth_le⟩⟩⟩

/-- Three rows of four pixels that grow lighter, with a hole. -/
def slopeCanvas : Canvas :=
  .ofParts (.generate 4 3 .gray fun p _ => (20 * p).toUInt8)
    (.ofHoles 4 3 fun x y => x == 1 && y == 1)

/-- A field of two pixels, for targets of twice its size. -/
def coarseField : MatchField Unit :=
  ⟨⟨slopeCanvas.halve, slopeCanvas.halve, 1⟩, #[⟨1, 0, 0⟩, ⟨0, 0, 300⟩], ()⟩

end MatchField

end Retouch
