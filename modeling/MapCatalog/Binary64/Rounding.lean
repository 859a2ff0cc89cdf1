import MapCatalog.Binary64.Basic

/-! # Rounding to double precision -/

namespace MapCatalog

namespace Binary64

/-- The nearest whole number to a quotient; a tie goes to the even one. -/
def roundQuotient (num den : Nat) : Nat :=
  let whole := num / den
  let twice := 2 * (num % den)
  if twice < den then whole
  else if den < twice then whole + 1
  else whole + whole % 2

/--
The magnitude nearest to `num / den`.

The significand keeps 53 binary digits, fewer below the smallest normal number.  Rounding up to the
next power of two carries into the exponent by itself.
-/
def nearestMagnitude (num den : Nat) : Nat :=
  let place := Nat.log2 (num * unitsPerOne / den) - 52
  min infinityMagnitude (place * 2 ^ 52 + roundQuotient (num * unitsPerOne) (den * Nat.pow 2 place))

def ofFraction (num den : Nat) : Binary64 :=
  ofMagnitude false (nearestMagnitude num den)

def neg (x : Binary64) : Binary64 :=
  ofMagnitude (!x.negative) x.magnitude

def ofNat (n : Nat) : Binary64 :=
  ofFraction n 1

def ofInt (n : Int) : Binary64 :=
  if n < 0 then neg (ofNat n.natAbs) else ofNat n.natAbs

def product (x y : Binary64) : Binary64 :=
  ofFraction (x.units * y.units) (unitsPerOne * unitsPerOne)

/-- The rounded quotient of two finite numbers that are not negative, the second not zero. -/
def quotient (x y : Binary64) : Binary64 :=
  ofFraction x.units y.units

def zero : Binary64 :=
  ⟨0⟩

end Binary64

end MapCatalog
