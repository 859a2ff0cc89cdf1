import MapCatalog.Binary64.Rounding

/-! # Numbers from decimal digits

The significand, below `2 ^ 64`, and the power of ten are each rounded before they are multiplied or divided, and the
result is rounded once more.  So a long numeral may miss the nearest number by a last place.
-/

namespace MapCatalog

namespace Binary64

def maxPower : Nat :=
  308

def powerOfTen (exponent : Nat) : Binary64 :=
  ofNat (Nat.pow 10 exponent)

/-- Multiply by a power of ten.  There is no result when it would be infinite. -/
def scaleUp (x : Binary64) (exponent : Nat) : Option Binary64 :=
  if exponent ≤ maxPower then
    let scaled := product x (powerOfTen exponent)
    if scaled.isFinite then some scaled else none
  else if x = zero then some zero
  else none

/--
Divide by a power of ten.

A power beyond `10 ^ 308` is taken out in two steps, and one beyond `10 ^ 616` leaves nothing of a
number below `2 ^ 64`.
-/
def scaleDown (x : Binary64) (exponent : Nat) : Binary64 :=
  if exponent ≤ maxPower then
    quotient x (powerOfTen exponent)
  else if exponent ≤ 2 * maxPower then
    quotient (quotient x (powerOfTen maxPower)) (powerOfTen (exponent - maxPower))
  else
    zero

def ofScientific (negative : Bool) (significand : Nat) (exponent : Int) : Option Binary64 :=
  let unsigned :=
    match exponent with
    | .ofNat up => scaleUp (ofNat significand) up
    | .negSucc down => some (scaleDown (ofNat significand) (down + 1))
  if negative then unsigned.map neg else unsigned

end Binary64

end MapCatalog
