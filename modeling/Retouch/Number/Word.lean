/-!
# Retouch — Number — Word

Counts and positions are natural numbers; these are the limits that the machine words holding
them set, and the reading of an unsigned word as a signed one.
-/

namespace Retouch.Word

/-- The number of values of a 32-bit word, 2³². -/
def span32 : Nat := 4294967296

/-- The number of values of a 64-bit word, 2⁶⁴. -/
def span64 : Nat := 18446744073709551616

/-- The number of non-negative values of a signed 64-bit word, 2⁶³. -/
def half64 : Nat := 9223372036854775808

/-- A 64-bit word read as a signed number: the upper half of its values is negative. -/
def signed (n : Nat) : Int :=
  if n < half64 then n else n - span64

/-- Whether a signed 64-bit word can hold `i`. -/
def fitsSigned (i : Int) : Bool :=
  -(half64 : Int) ≤ i && i < half64

/-- Small words keep their value. -/
theorem signed_of_lt {n : Nat} (h : n < half64) : signed n = n := by
  simp [signed, h]

end Retouch.Word
