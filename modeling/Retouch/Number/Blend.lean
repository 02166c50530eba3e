import Retouch.Fault
import Retouch.Number.Sum
import Retouch.Number.Word

/-!
# Retouch — Number — Blend

Weighted means of samples in whole numbers.  `mean` is rounded to nearest with ties up; `pixels?`
takes it channel by channel over several pixels and checks on the way that all sums fit a 32-bit
word.  Weights are usually parts of `unit`.
-/

namespace Retouch.Blend

/-- The sum that weights usually have: one whole, in 8-bit fixed point. -/
def unit : Nat := 256

/-- The weights of four equal parts. -/
def quarters : List Nat :=
  [unit / 4, unit / 4, unit / 4, unit / 4]

/-- The sum of the values, each taken as often as its weight says; it ends with the shorter
list. -/
def weightedSum : List UInt8 → List Nat → Nat
  | v :: values, w :: weights => v.toNat * w + weightedSum values weights
  | _, _ => 0

/-- The sum of the weights, or 1 when they are all zero. -/
def divisor (weights : List Nat) : Nat :=
  max 1 (Sum.ofList weights)

/-- The weighted mean of the values, rounded to nearest with ties up. -/
def mean (values : List UInt8) (weights : List Nat) : UInt8 :=
  UInt8.ofNat (min 255 ((weightedSum values weights + divisor weights / 2) / divisor weights))

/-- The even mean of four samples, in whole numbers. -/
theorem toNat_mean_quarters (a b c d : UInt8) : (mean [a, b, c, d] quarters).toNat =
    (a.toNat + b.toNat + c.toNat + d.toNat + 2) / 4 := by
  have ha := a.toNat_lt
  have hb := b.toNat_lt
  have hc := c.toNat_lt
  have hd := d.toNat_lt
  have hdivisor : divisor quarters = 256 := rfl
  have hsum : weightedSum [a, b, c, d] quarters =
      a.toNat * 64 + (b.toNat * 64 + (c.toNat * 64 + (d.toNat * 64 + 0))) := rfl
  rw [mean, hdivisor, hsum, UInt8.toNat_ofNat']
  omega

/-- Channel `c` of every pixel. -/
def channel? (pixels : List (Array UInt8)) (c : Nat) : Except Fault (List UInt8) :=
  pixels.mapM fun pixel =>
    match pixel[c]? with
    | some v => .ok v
    | none => .error .outOfRange

/-- The weighted means of the first `channels` samples of the pixels. -/
def pixels? (pixels : List (Array UInt8)) (weights : List Nat) (channels : Nat) :
    Except Fault (List UInt8) := do
  Fault.sizeMismatch.unless (pixels.length = weights.length)
  Fault.overflow.unless (Sum.ofList weights < Word.span32)
  (List.range channels).mapM fun c => do
    let values ← channel? pixels c
    Fault.overflow.unless (weightedSum values weights + divisor weights / 2 < Word.span32)
    return mean values weights

end Retouch.Blend
