import Retouch.Matching.Field
import Retouch.Voting.Tally

/-!
# Retouch — Voting — Repaint

A repaint rebuilds a target from the source pixels that the overlapping patches of a field point
at.  Every patch that covers a pixel votes, with the weight of its match, for the source pixel at
the same place inside the matched patch; positions outside the source and holes of the source
have no vote.  A pixel whose votes weigh less than one in sum keeps its samples, and so does every
channel that carries no colour.

The target may have the size of the field (`Zoom.same`) or twice that size (`Zoom.double`); then
a pixel uses the match of the coarse pixel covering it, moved by its place inside that pixel.
-/

namespace Retouch

/-- How the pixels of a repainted target are found in the field. -/
inductive Zoom where
  /-- One field entry for each pixel. -/
  | same
  /-- One field entry for two by two pixels. -/
  | double
  deriving DecidableEq

/-- A vote for a source pixel, given by its position in the source. -/
structure Vote where
  cell : Nat
  weight : Float32

/-- The least sum of vote weights that changes a pixel. -/
def quorum : Float32 := 1.0

namespace MatchField

variable {σ : Type}

/-- The source position and the distance that the patch around `(x, y)` of the repainted target
is matched with. -/
def aim (f : MatchField σ) (zoom : Zoom) (x y : Nat) : Match :=
  match zoom with
  | .same => f.entry (y * f.width + x)
  | .double =>
    let m := f.entry (min (y / 2) (f.height - 1) * f.width + min (x / 2) (f.width - 1))
    ⟨2 * m.x + x % 2, 2 * m.y + y % 2, m.distance⟩

/-- The centres of the patches that cover `v` along an axis of `n` cells.  A radius beyond the
signed range reaches nothing. -/
def centres (f : MatchField σ) (v n : Nat) : List Nat :=
  if f.radius < Word.half64 then
    let first := v - f.radius
    List.range' first (min n (v + f.radius + 1) - first)
  else
    []

/-- The vote that the patch around `(qx, qy)` casts for pixel `(x, y)`, if any. -/
def vote? (f : MatchField σ) (zoom : Zoom) (source : Canvas) (x y qx qy : Nat) : Option Vote :=
  let m := f.aim zoom qx qy
  let (x', y') := ((m.x + x : Int) - qx, (m.y + y : Int) - qy)
  if source.isOpen x' y' then
    some ⟨source.cell x'.toNat y'.toNat, Similarity.weight m.distance⟩
  else
    none

/-- All votes for pixel `(x, y)`, by the row and then by the column of the voting patch. -/
def ballot (f : MatchField σ) (zoom : Zoom) (source target : Canvas) (x y : Nat) : List Vote :=
  let columns := f.centres x target.width
  (f.centres y target.height).flatMap fun qy => columns.filterMap fun qx =>
    f.vote? zoom source x y qx qy

end MatchField

namespace Vote

/-- The weight of all votes, added up in order. -/
def total (votes : List Vote) : Float32 :=
  votes.foldl (fun sum v => sum + v.weight) 0.0

/-- The tally of the votes, for a target with `channels` channels. -/
def tally (source : Canvas) (channels : Nat) (votes : List Vote) : Tally :=
  votes.foldl (fun t v => t.add (source.image.pixel v.cell) v.weight) (Tally.empty channels)

/-- The samples that a pixel gets from its votes; `old` are its samples so far. -/
def elect (source : Canvas) (layout : Layout) (old : List UInt8) (votes : List Vote) :
    List UInt8 :=
  let total := Vote.total votes
  if total < quorum then
    old
  else
    let tally := Vote.tally source layout.size votes
    layout.toList.zipIdx.zipWith
      (fun (channel, c) v => if channel.isColor then tally.middleMean c total else v) old

end Vote

namespace MatchField

variable {σ : Type}

/-- The samples of pixel `p` of the repainted target. -/
def repaintedPixel (f : MatchField σ) (zoom : Zoom) (source target : Canvas) (p : Nat) :
    List UInt8 :=
  Vote.elect source target.layout (target.image.pixel p)
    (f.ballot zoom source target (p % target.width) (p / target.width))

/-- The target rebuilt from the votes of the field for pixels of the source. -/
def repaint (f : MatchField σ) (zoom : Zoom) (source target : Canvas) : Canvas :=
  let pixels := Array.ofFn fun p : Fin target.area =>
    (f.repaintedPixel zoom source target p).toArray
  target.withImage <| .generate target.width target.height target.layout fun p c =>
    (pixels.getD p #[]).getD c 0

/-- Whether the field has an entry for every pixel of the target that patches can be centred
at. -/
def Covers (f : MatchField σ) (zoom : Zoom) (target : Canvas) : Prop :=
  match zoom with
  | .same => (target.height - 1) * f.width + target.width - 1 < f.entries.size
  | .double => 0 < f.width ∧ 0 < f.height

instance (f : MatchField σ) (zoom : Zoom) (target : Canvas) :
    Decidable (f.Covers zoom target) := by
  unfold Covers; cases zoom <;> infer_instance

/-- `repaint`, provided that every patch can be looked up in the field and every pixel voted for
has no more channels than the target. -/
def repaint? (f : MatchField σ) (zoom : Zoom) (source target : Canvas) : Except Fault Canvas := do
  if target.area = 0 ∨ target.depth = 0 then
    return target
  Fault.overflow.unless (f.radius ≠ Word.half64)
  if f.radius < Word.half64 then
    Fault.outOfRange.unless (f.Covers zoom target)
    Fault.outOfRange.unless <|
      source.depth ≤ target.depth ∨ (List.range target.area).all fun p =>
        (f.ballot zoom source target (p % target.width) (p / target.width)).isEmpty
  return f.repaint zoom source target

end MatchField

end Retouch
