import Retouch.Fault
import Retouch.Number.Byte
import Retouch.Number.Single
import Retouch.Number.Word

/-!
# Retouch — Voting — Tally

A tally collects weighted votes for the samples of one pixel: for every channel, the weight that
each of the 256 values has got so far, in single precision and in the order of the votes.

The outcome for a channel is the mean of its middle votes.  Walking up the values, the weights
add up; values at which the sum is still below 40 % of the total are left out, and the walk ends
at the value at which the sum passes 60 %.  Values at either bound count with their whole weight.
-/

namespace Retouch

/-- The weights of all values of all channels. -/
structure Tally where
  channels : Nat
  bins : Array Float32
  size_eq : bins.size = channels * 256

namespace Tally

/-- The tally without any vote. -/
def empty (channels : Nat) : Tally where
  channels
  bins := Array.replicate (channels * 256) 0.0
  size_eq := Array.size_replicate

/-- `empty`, provided that the weights, of four bytes each, can be allocated. -/
def empty? (channels : Nat) : Except Fault Tally := do
  Fault.overflow.unless (channels * 256 * 4 < Word.half64)
  return empty channels

/-- The tally with all votes forgotten. -/
def clear (t : Tally) : Tally :=
  { t with
    bins := t.bins.map fun _ => 0.0
    size_eq := by rw [Array.size_map, t.size_eq] }

/-- The weight of value `v` in channel `c`. -/
def bin (t : Tally) (c : Nat) (v : Nat) : Float32 :=
  t.bins.getD (c * 256 + v) 0.0

/-- The bins after a vote for `pixel`, whose samples belong to the channels from `c` on. -/
def addFrom (bins : Array Float32) (c : Nat) (weight : Float32) : List UInt8 → Array Float32
  | [] => bins
  | v :: pixel =>
    addFrom (bins.modify (c * 256 + v.toNat) (· + weight)) (c + 1) weight pixel

@[simp]
theorem size_addFrom (bins : Array Float32) (c : Nat) (weight : Float32) (pixel : List UInt8) :
    (addFrom bins c weight pixel).size = bins.size := by
  induction pixel generalizing bins c with
  | nil => rfl
  | cons v pixel ih => rw [addFrom, ih, Array.size_modify]

/-- The tally after a vote for `pixel`, one sample per channel; samples without a channel are
dropped. -/
def add (t : Tally) (pixel : List UInt8) (weight : Float32) : Tally :=
  { t with
    bins := addFrom t.bins 0 weight pixel
    size_eq := by rw [size_addFrom, t.size_eq] }

/-- `add`, provided that every sample of the pixel has a channel. -/
def add? (t : Tally) (pixel : List UInt8) (weight : Float32) : Except Fault Tally := do
  Fault.outOfRange.unless (pixel.length ≤ t.channels)
  return t.add pixel weight

/-! ### The outcome -/

/-- What the walk over the values has added up. -/
structure Band where
  /-- The weight of all values passed. -/
  reached : Float32
  /-- The weighted sum of the values that count. -/
  sum : Float32
  /-- The weight of the values that count. -/
  weight : Float32

/-- The walk over the `n` values from `value` on, between the bounds `low` and `high`. -/
def walk (t : Tally) (c : Nat) (low high : Float32) : Nat → Nat → Band → Band
  | 0, _, band => band
  | n + 1, value, ⟨reached, sum, weight⟩ =>
    let w := t.bin c value
    let reached := reached + w
    if reached < low then
      walk t c low high n (value + 1) ⟨reached, sum, weight⟩
    else
      let band := ⟨reached, sum + Single.ofCount value * w, weight + w⟩
      if high < reached then band else walk t c low high n (value + 1) band

/-- The mean of the middle votes of channel `c`, when the votes weigh `total` together; 0 when
no vote counts. -/
def middleMean (t : Tally) (c : Nat) (total : Float32) : UInt8 :=
  let band := t.walk c (0.4 * total) (0.6 * total) 256 0 ⟨0.0, 0.0, 0.0⟩
  if band.weight ≤ 0.0 then 0 else Byte.nearest (band.sum / band.weight)

/-- `middleMean`, provided that there is such a channel. -/
def middleMean? (t : Tally) (c : Nat) (total : Float32) : Except Fault UInt8 := do
  Fault.outOfRange.unless (c < t.channels)
  return t.middleMean c total

end Tally

end Retouch
