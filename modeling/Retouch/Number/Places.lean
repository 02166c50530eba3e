/-!
# Retouch — Number — Places

Doubles written with a fixed number of decimal places.  A double is a whole number times a power
of two, so its exact value is a fraction; the text is that fraction rounded to the last place,
and a tie goes to the even neighbour.
-/

namespace Retouch.Places

/-- `num / den` rounded to a whole number, ties to even. -/
def roundDiv (num den : Nat) : Nat :=
  let q := num / den
  let r := num % den
  if 2 * r < den then q
  else if den < 2 * r then q + 1
  else q + q % 2

/-- The magnitude of a finite double: `m * 2 ^ q / 2 ^ 1074`. -/
structure Magnitude where
  m : Nat
  q : Nat

/-- The magnitude of a double, read off its bits. -/
def magnitude (v : Float) : Magnitude :=
  let exponent := (v.toBits >>> 52 &&& 2047).toNat
  let fraction := (v.toBits &&& 4503599627370495).toNat
  if exponent = 0 then ⟨fraction, 0⟩ else ⟨fraction + 4503599627370496, exponent - 1⟩

/-- Whether the sign bit of a double is set. -/
def isNegative (v : Float) : Bool :=
  v.toBits >>> 63 = 1

/-- The digits of `n`, with zeros in front up to `width` digits. -/
def padZeros (width n : Nat) : String :=
  let digits := toString n
  String.ofList (List.replicate (width - digits.length) '0') ++ digits

/-- A finite double with `places` decimal places, of which there is at least one. -/
def text (places : Nat) (v : Float) : String :=
  let ⟨m, q⟩ := magnitude v
  let unit := Nat.pow 10 places
  let scaled := roundDiv (m * Nat.pow 2 q * unit) (Nat.pow 2 1074)
  let sign := if isNegative v then "-" else ""
  sign ++ toString (scaled / unit) ++ "." ++ padZeros places (scaled % unit)

end Retouch.Places
