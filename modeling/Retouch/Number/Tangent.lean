/-!
# Retouch — Number — Tangent

The hyperbolic tangent in double precision, by way of `exp x - 1`.  The argument is reduced to
`k * log 2 + r` with a small `r`, and the correction lost in the reduction is kept; a rational
approximation serves for `r`, and the result is put together in the order that loses least.

Everything here is sums, products and quotients of doubles, each correctly rounded, so the result
is the same on every machine.
-/

namespace Retouch.Tangent

/-- The double `2 ^ k`, for exponents of normal doubles. -/
def power (k : Int) : Float :=
  Float.ofBits (UInt64.ofNat (1023 + k).toNat <<< 52)

/-- The leading bits of `log 2`, few enough that small multiples are exact. -/
def logTwoHigh : Float := 6.93147180369123816490e-01

/-- What `logTwoHigh` lacks of `log 2`. -/
def logTwoLow : Float := 1.90821492927058770002e-10

/-- An argument in reduced form: `x = k * log 2 + r`, up to the correction `c` of `r`. -/
structure Reduced where
  k : Int
  r : Float
  c : Float

/-- Reduces by a given multiple of `log 2`, of which the two parts are handed in. -/
def reduceBy (x : Float) (k : Int) (high low : Float) : Reduced :=
  let rest := x - high
  let r := rest - low
  ⟨k, r, (rest - r) - low⟩

/-- Reduces `x`, with the nearest multiple of `log 2`. -/
def reduce (x : Float) : Reduced :=
  let a := x.abs
  if a < 0.34657359 then
    ⟨0, x, 0.0⟩
  else if a < 1.0397208 then
    if x < 0.0 then reduceBy x (-1) (-logTwoHigh) (-logTwoLow)
    else reduceBy x 1 logTwoHigh logTwoLow
  else
    let count := (1.44269504088896338700 * a + 0.5).toUInt64
    let n := count.toFloat
    if x < 0.0 then reduceBy x (-(count.toNat : Int)) (-(n * logTwoHigh)) (-(n * logTwoLow))
    else reduceBy x count.toNat (n * logTwoHigh) (n * logTwoLow)

/-- The polynomial of the rational approximation, at half the square of the reduced argument. -/
def series (h : Float) : Float :=
  1.0 + h * (-3.33333333333331316428e-02 + h * (1.58730158725481460165e-03 +
    h * (-7.93650757867487942473e-05 + h * (4.00821782732936239552e-06 +
      h * -2.01099218183624371326e-07))))

/-- `exp x - 1`. -/
def expMinusOne (x : Float) : Float :=
  let ⟨k, r, c⟩ := reduce x
  let half := 0.5 * r
  let h := r * half
  let s := series h
  let t := 3.0 - s * half
  let e := h * ((s - t) / (6.0 - r * t))
  if k = 0 then
    r - (r * e - h)
  else
    let e := (r * (e - c) - c) - h
    if k = -1 then
      0.5 * (r - e) - 0.5
    else if k = 1 then
      if r < -0.25 then -2.0 * (e - (r + 0.5)) else 1.0 + 2.0 * (r - e)
    else if k ≤ -2 ∨ 56 < k then
      (1.0 - (e - r)) * power k - 1.0
    else if k < 20 then
      ((1.0 - power (-k)) - (e - r)) * power k
    else
      ((r - (e + power (-k))) + 1.0) * power k

/-- The hyperbolic tangent of `a`, which must not be negative. -/
def ofMagnitude (a : Float) : Float :=
  if 22.0 ≤ a then
    1.0
  else if 1.0 ≤ a then
    1.0 - 2.0 / (expMinusOne (2.0 * a) + 2.0)
  else
    let t := expMinusOne (-2.0 * a)
    (0.0 - t) / (t + 2.0)

/-- The hyperbolic tangent. -/
def tanh (x : Float) : Float :=
  if x < 0.0 then -(ofMagnitude (-x)) else ofMagnitude x

end Retouch.Tangent
