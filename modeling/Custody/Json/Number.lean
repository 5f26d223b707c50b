/-!
# JSON numbers

A number is kept as a numeral of at most 64 bits times a power of ten. Digits of the
text that no longer fit into the numeral are dropped: those before the decimal point
raise the exponent, those after it leave the number as it is.

Where a number is read for its value, it is the double precision product of the numeral
and the power of ten, both rounded to double precision first. `Number.fitsDouble` tells
whether that product is finite. Since it is rounded three times, the largest double
precision number need not be among them.

No decoder uses the value of a number that is not an integer; all that matters is
whether it has one, because a number out of range makes the part of the text it is in
unusable. So the rounding is done in natural numbers, as far as it decides about the
range, and there are no floating point numbers here.
-/

set_option autoImplicit false

namespace Custody.Json

/-- A JSON number: a numeral times a power of ten. -/
structure Number where
  negative : Bool
  significand : Nat
  exponent : Int
  /-- Written with neither fraction nor exponent. -/
  integral : Bool
deriving DecidableEq, Repr, Inhabited

/-- The multiple of `unit` nearest to a number; of two equally near ones, the even
multiple. -/
def nearestMultiple (unit n : Nat) : Nat :=
  let below := n / unit
  let rest := n % unit
  if unit < 2 * rest || (2 * rest = unit && below % 2 = 1) then (below + 1) * unit else below * unit

/-- The double precision number nearest to a natural number, whose range is not looked
at: its first 53 bits, rounded. -/
def nearestDouble (n : Nat) : Nat := nearestMultiple (Nat.pow 2 (n.log2 - 52)) n

/-- The least magnitude that no double precision number is nearest to: halfway between
the largest one and the power of two after it. -/
def doubleBound : Nat := Nat.pow 2 1024 - Nat.pow 2 970

def maxTenPower : Nat := 308

/-- Whether the number is finite in double precision. A division never leaves the
range. -/
def Number.fitsDouble (n : Number) : Bool :=
  match n.exponent with
  | .ofNat up =>
    n.significand == 0 ||
      (up ≤ maxTenPower &&
        nearestDouble n.significand * nearestDouble (Nat.pow 10 up) < doubleBound)
  | .negSucc _ => true

end Custody.Json
